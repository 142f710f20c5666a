import SourceOrigin.Proofs.Conditional.Skipping
import SourceOrigin.Proofs.Lexer.Lookahead

/-! How the lexer reads lines of a tree: as it reads them alone, if no block comment runs on behind them and
none of them is a conditional directive, whatever conditionals are open. -/
namespace SourceOrigin.Lexer
variable {first : Char} {line more : Text} {lines : List Text} {atLineStart : Bool}

private theorem startsWith_line {start : Text} (h : '\n' ∉ start) (line rest : Text) :
    Text.startsWith start (line ++ '\n' :: rest) = Text.startsWith start line :=
  Text.startsWith_append (by simpa using h) line

def IsClosed (piece : Trivia) : Prop :=
  piece.isOneOf [.blockComment, .blockDocComment] = true → "*/".toList <:+ piece.text.drop 2

private theorem closerEnd_le (text : Text) : closerEnd 0 text ≤ text.length := by
  induction text with
  | nil => simp [closerEnd]
  | cons c text ih =>
    by_cases h : c = '*' ∧ ∃ rest, text = '/' :: rest
    · obtain ⟨rfl, rest, rfl⟩ := h
      simp [closerEnd]
    · rw [closerEnd_pass h, closerEnd_add, List.length_cons]
      omega

theorem readTrivia_feed (state : State) (rest : Text) :
    readTrivia state '\n' rest = some ⟨[Conditional.feed], rest, ⟨true, state.conditionals⟩⟩ := by
  simp [readTrivia, Text.isBreak, Text.breakAt_feed, Text.afterBreak_feed, Conditional.feed]

/-- What is left of lines that are read alone: no conditional is open, and none can be opened. -/
inductive Alone : State → Text → Prop where
  | done : Alone {} []
  | within {atLineStart : Bool} {line : Text} {lines : List Text} : Text.Unbroken line →
      (atLineStart = true → Conditional.isConditional line = false) →
      (∀ line ∈ lines, Text.Unbroken line ∧ Conditional.isConditional line = false) →
      Alone ⟨atLineStart, []⟩ (line ++ '\n' :: Text.unlines lines)

private theorem Alone.eq_of_nil {state : State} (h : Alone state []) : state = {} := by
  generalize htext : ([] : Text) = text at h
  cases h with
  | done => rfl
  | within => simp at htext

private theorem Alone.exists_line {state : State} (h : Alone state (first :: more)) :
    ∃ line lines, first :: more = line ++ '\n' :: Text.unlines lines := by
  generalize htext : first :: more = text at h ⊢
  cases h with
  | done => simp at htext
  | within => exact ⟨_, _, rfl⟩

theorem Alone.start (h : ∀ line ∈ lines, Text.Unbroken line ∧ Conditional.isConditional line = false) :
    Alone {} (Text.unlines lines) := by
  cases lines with
  | nil => exact .done
  | cons line lines =>
    obtain ⟨hline, hlines⟩ := List.forall_mem_cons.mp h
    rw [Text.unlines_cons]
    exact .within hline.1 (fun _ => hline.2) hlines

/-- What is left in front of a line feed. -/
private theorem Alone.behind
    (h : ∀ line ∈ lines, Text.Unbroken line ∧ Conditional.isConditional line = false) :
    Alone ⟨atLineStart, []⟩ ('\n' :: Text.unlines lines) := by
  have hnil : Text.Unbroken [] := by simp [Text.Unbroken]
  exact .within hnil (fun _ => rfl) h

/-- What is left behind a comment that ends somewhere in such lines. -/
private theorem Alone.drop (hline : Text.Unbroken line)
    (hlines : ∀ line ∈ lines, Text.Unbroken line ∧ Conditional.isConditional line = false) {length : Nat}
    (hlt : length < (line ++ '\n' :: Text.unlines lines).length) :
    Alone ⟨false, []⟩ ((line ++ '\n' :: Text.unlines lines).drop length) := by
  induction lines generalizing line length with
  | nil =>
    have hle : length ≤ line.length := by
      simp only [List.length_append, List.length_cons, Text.unlines_nil, List.length_nil] at hlt
      omega
    rw [List.drop_append_of_le_length hle]
    exact .within (fun c hc => hline c (List.mem_of_mem_drop hc)) (by simp) hlines
  | cons next lines ih =>
    obtain ⟨hnext, hmore⟩ := List.forall_mem_cons.mp hlines
    by_cases hle : length ≤ line.length
    · rw [List.drop_append_of_le_length hle]
      exact .within (fun c hc => hline c (List.mem_of_mem_drop hc)) (by simp) hlines
    · obtain ⟨behind, rfl⟩ := Nat.exists_eq_add_of_lt (Nat.not_le.mp hle)
      have hdrop : (line ++ '\n' :: Text.unlines (next :: lines)).drop (line.length + behind + 1) =
          (next ++ '\n' :: Text.unlines lines).drop behind := by
        rw [Nat.add_assoc, List.drop_length_add_append, Text.unlines_cons, List.drop_succ_cons]
      rw [hdrop]
      refine ih hnext.1 hmore ?_
      simp only [List.length_append, List.length_cons, Text.unlines_cons] at hlt ⊢
      omega

def Step.ahead (step : Step) (conditionals : List Condition) (rest : Text) : Step :=
  ⟨step.pieces, step.rest ++ rest, ⟨step.state.atLineStart, conditionals⟩⟩

private theorem readTrivia_blank (h : Text.isInlineBlank first = true) (state : State) (line rest : Text) :
    readTrivia state first (line ++ '\n' :: rest) =
      some ⟨[⟨.whitespace, (first :: line).takeWhile Text.isInlineBlank⟩],
        (first :: line).dropWhile Text.isInlineBlank ++ '\n' :: rest, state⟩ := by
  rw [readTrivia_of_isInlineBlank h, ← List.cons_append, Text.takeWhile_line (by decide),
    Text.dropWhile_line (by decide)]

private theorem readTrivia_content (h : Text.isBlank first = false) (state : State) (line rest : Text) :
    readTrivia state first (line ++ '\n' :: rest) =
      if Text.startsWith "//".toList (first :: line) then
        some (readLineComment state (first :: line ++ '\n' :: rest))
      else if Text.startsWith "/*".toList (first :: line) then
        some (readBlockComment state (first :: line ++ '\n' :: rest))
      else if first = '#' && state.atLineStart then
        some (readDirective state (first :: line ++ '\n' :: rest))
      else none := by
  rw [readTrivia_of_not_isBlank h, ← List.cons_append, startsWith_line (by decide), startsWith_line (by decide)]

theorem readLineComment_line (h : Text.Unbroken line) (state : State) (rest : Text) :
    readLineComment state (line ++ '\n' :: rest) =
      ⟨[⟨Conditional.commentKind line, line⟩], '\n' :: rest, state⟩ := by
  simp [readLineComment, startsWith_line, Text.lineAt_line h, Text.afterLine_line h, Conditional.commentKind,
    ← Bool.not_eq_true]

theorem readDirective_line (h : Text.Unbroken ('#' :: line)) (state : State) (rest : Text) :
    readDirective state ('#' :: line ++ '\n' :: rest) =
      match Directive.track (Directive.ofText line) state.conditionals with
      | (conditionals, .live) =>
        ⟨[⟨.directive, '#' :: line⟩], '\n' :: rest, ⟨state.atLineStart, conditionals⟩⟩
      | (conditionals, .disabled toAlternative) =>
        ⟨⟨.directive, '#' :: line⟩ :: (readDisabled toAlternative ('\n' :: rest)).1,
          (readDisabled toAlternative ('\n' :: rest)).2, ⟨state.atLineStart, conditionals⟩⟩ := by
  rw [readDirective, Text.lineAt_line h, Text.afterLine_line h]
  cases htrack : Directive.track (Directive.ofText line) state.conditionals with
  | mk conditionals continuation =>
    cases continuation <;> simp [htrack]

theorem readDirective_other (h : Text.Unbroken ('#' :: line))
    (hother : Directive.ofText line = .other) (state : State) (rest : Text) :
    readDirective state ('#' :: line ++ '\n' :: rest) = ⟨[⟨.directive, '#' :: line⟩], '\n' :: rest, state⟩ := by
  rw [readDirective_line h, hother]
  rfl

/-- Every text of lines ends in a line feed. -/
private theorem feed_suffix (line : Text) (lines : List Text) :
    ['\n'] <:+ line ++ '\n' :: Text.unlines lines := by
  induction lines generalizing line with
  | nil => exact List.suffix_append _ _
  | cons next lines ih =>
    rw [Text.unlines_cons]
    exact (ih next).trans ((List.suffix_cons _ _).trans (List.suffix_append _ _))

/-- A comment that is closed within lines ends before their last line feed, and is read there whatever
follows. -/
private theorem readBlockComment_line (lines : List Text) (conditionals : List Condition) (rest : Text)
    (h : ∀ piece ∈ (readBlockComment ⟨atLineStart, []⟩ (line ++ '\n' :: Text.unlines lines)).pieces,
      IsClosed piece) :
    ∃ length < (line ++ '\n' :: Text.unlines lines).length,
      (readBlockComment ⟨atLineStart, []⟩ (line ++ '\n' :: Text.unlines lines)).rest =
        (line ++ '\n' :: Text.unlines lines).drop length ∧
      readBlockComment ⟨atLineStart, conditionals⟩ (line ++ '\n' :: (Text.unlines lines ++ rest)) =
        (readBlockComment ⟨atLineStart, []⟩ (line ++ '\n' :: Text.unlines lines)).ahead conditionals rest := by
  have hfeed := feed_suffix line lines
  rw [← List.cons_append, ← List.append_assoc]
  generalize line ++ '\n' :: Text.unlines lines = text at h hfeed ⊢
  have hcloser : "*/".toList <:+ (text.drop 2).take (closerEnd 0 (text.drop 2)) := by
    have hpiece := h _ (List.mem_singleton_self _) (by simp only [Trivia.isOneOf]; split <;> rfl)
    dsimp only at hpiece
    rwa [closerEnd_add, List.drop_take, Nat.add_sub_cancel_left] at hpiece
  -- The comment ends in a slash and the lines in a line feed, so it does not take all of them.
  have hlength : closerEnd 2 (text.drop 2) < text.length := by
    have hle := closerEnd_le (text.drop 2)
    have hshort : 2 ≤ ((text.drop 2).take (closerEnd 0 (text.drop 2))).length := hcloser.length_le
    simp only [List.length_take, List.length_drop] at hle hshort
    rw [closerEnd_add]
    refine Nat.lt_of_le_of_ne (by omega) fun heq => ?_
    rw [List.take_of_length_le (by simp only [List.length_drop]; omega)] at hcloser
    obtain ⟨before, hbefore⟩ := hcloser.trans (List.drop_suffix 2 text)
    obtain ⟨before', hbefore'⟩ := hfeed
    have hlast := congrArg List.getLast? (hbefore.trans hbefore'.symm)
    simp at hlast
  refine ⟨closerEnd 2 (text.drop 2), hlength, rfl, ?_⟩
  have hmore : (readBlockComment ⟨atLineStart, conditionals⟩ text).rest ≠ [] := by
    simpa [readBlockComment] using hlength
  have hahead := @readBlockComment_append ⟨atLineStart, conditionals⟩ text
    (text.drop (closerEnd 2 (text.drop 2)) ++ rest) hmore
  simp only [readBlockComment, Trivia.texts_cons, Trivia.texts_nil, List.append_nil] at hahead
  rw [← List.append_assoc, List.take_append_drop] at hahead
  exact hahead

/-- A number sign at the start of such a line begins a directive that opens and closes nothing. -/
theorem ofText_eq_other (h : Conditional.isConditional ('#' :: line) = false) :
    Directive.ofText line = .other := by
  have htrim : Text.trimLeft ('#' :: line) = '#' :: line := by
    simp [show Text.isBlank '#' = false by decide]
  have hread := Conditional.ofLine?_of_not_isConditional h
  simp only [Directive.ofLine?, htrim] at hread
  simpa using hread

private theorem isConditional_dropWhile (line : Text) :
    Conditional.isConditional (line.dropWhile Text.isInlineBlank) = Conditional.isConditional line := by
  have hdrop : (line.dropWhile Text.isInlineBlank).dropWhile Text.isBlank =
      line.dropWhile Text.isBlank := by
    induction line with
    | nil => rfl
    | cons c line ih =>
      by_cases hc : Text.isInlineBlank c = true
      · simp [hc, Text.isBlank_of_isInlineBlank hc, ih]
      · simp [hc]
  simp only [Conditional.isConditional, hdrop]

section
variable (conditionals : List Condition) (rest : Text)

/-- A step on lines alone is a step on the lines in front of more text. It leaves such lines again, and
disables none. -/
structure ReadsAhead (state : State) (first : Char) (more : Text) : Prop where
  ahead : readTrivia ⟨state.atLineStart, conditionals⟩ first (more ++ rest) =
    (readTrivia state first more).map (·.ahead conditionals rest)
  alone {step : Step} : readTrivia state first more = some step → Alone step.state step.rest
  live {step : Step} : readTrivia state first more = some step → ∀ piece ∈ step.pieces, piece.kind ≠ .disabledText

private theorem ReadsAhead.of_step {state : State} {step : Step} (h : readTrivia state first more = some step)
    (hahead : readTrivia ⟨state.atLineStart, conditionals⟩ first (more ++ rest) = some (step.ahead conditionals rest))
    (halone : Alone step.state step.rest) (hlive : ∀ piece ∈ step.pieces, piece.kind ≠ .disabledText) :
    ReadsAhead conditionals rest state first more where
  ahead := by rw [hahead, h, Option.map_some]
  alone hstep := by
    obtain rfl := Option.some.inj (h.symm.trans hstep)
    exact halone
  live hstep := by
    obtain rfl := Option.some.inj (h.symm.trans hstep)
    exact hlive

section
variable {conditionals rest} (hline : Text.Unbroken (first :: line))
  (hlines : ∀ line ∈ lines, Text.Unbroken line ∧ Conditional.isConditional line = false)
include hline hlines

private theorem ReadsAhead.blanks (hblank : Text.isBlank first = true)
    (hstart : atLineStart = true → Conditional.isConditional (first :: line) = false) :
    ReadsAhead conditionals rest ⟨atLineStart, []⟩ first (line ++ '\n' :: Text.unlines lines) := by
  have hinline : Text.isInlineBlank first = true := by simp [Text.isInlineBlank, hblank, hline first List.mem_cons_self]
  refine .of_step _ _ (readTrivia_blank hinline _ _ _) ?_ ?_ (by simp)
  · rw [List.append_assoc, List.cons_append, readTrivia_blank hinline]
    simp [Step.ahead]
  · refine .within (fun c hc => hline c (List.dropWhile_suffix _ |>.mem hc)) (fun h => ?_) hlines
    rw [isConditional_dropWhile]
    exact hstart h

private theorem ReadsAhead.lineComment (hblank : Text.isBlank first = false)
    (hcomment : Text.startsWith "//".toList (first :: line) = true) :
    ReadsAhead conditionals rest ⟨atLineStart, []⟩ first (line ++ '\n' :: Text.unlines lines) := by
  have hread (state : State) (more : Text) : readTrivia state first (line ++ '\n' :: more) =
      some ⟨[⟨Conditional.commentKind (first :: line), first :: line⟩], '\n' :: more, state⟩ := by
    rw [readTrivia_content hblank, if_pos hcomment, readLineComment_line hline]
  refine .of_step _ _ (hread _ _) ?_ (.behind hlines) (by simpa using Conditional.commentKind_ne_disabledText _)
  rw [List.append_assoc, List.cons_append, hread]
  simp [Step.ahead]

private theorem ReadsAhead.blockComment (hblank : Text.isBlank first = false)
    (hcomment : Text.startsWith "//".toList (first :: line) = false)
    (hblock : Text.startsWith "/*".toList (first :: line) = true)
    (hclosed : ∀ piece ∈ (readBlockComment ⟨atLineStart, []⟩ (first :: line ++ '\n' :: Text.unlines lines)).pieces,
      IsClosed piece) :
    ReadsAhead conditionals rest ⟨atLineStart, []⟩ first (line ++ '\n' :: Text.unlines lines) := by
  have hread (state : State) (more : Text) : readTrivia state first (line ++ '\n' :: more) =
      some (readBlockComment state (first :: line ++ '\n' :: more)) := by
    rw [readTrivia_content hblank, if_neg (Bool.eq_false_iff.mp hcomment), if_pos hblock]
  obtain ⟨length, hlt, hrest, hahead⟩ := readBlockComment_line lines conditionals rest hclosed
  refine .of_step _ _ (hread _ _) ?_ ?_ ?_
  · rw [List.append_assoc, List.cons_append, hread, hahead]
  · rw [hrest]
    exact .drop hline hlines hlt
  · simp only [readBlockComment, List.mem_singleton, forall_eq]
    split <;> simp

private theorem ReadsAhead.directive (hfirst : first = '#')
    (hstart : Conditional.isConditional (first :: line) = false) :
    ReadsAhead conditionals rest ⟨true, []⟩ first (line ++ '\n' :: Text.unlines lines) := by
  subst hfirst
  have hread (conditionals : List Condition) (more : Text) : readTrivia ⟨true, conditionals⟩ '#' (line ++ '\n' :: more) =
      some ⟨[⟨.directive, '#' :: line⟩], '\n' :: more, ⟨true, conditionals⟩⟩ := by
    rw [readTrivia_content (by decide), if_neg (by simp [Text.startsWith]), if_neg (by simp [Text.startsWith]),
      if_pos (by simp), readDirective_other hline (ofText_eq_other hstart)]
  refine .of_step _ _ (hread _ _) ?_ (.behind hlines) (by simp)
  rw [List.append_assoc, List.cons_append, hread]
  simp [Step.ahead]

end

theorem Alone.readsAhead {state : State} (h : Alone state (first :: more))
    (hclosed : ∀ step, readTrivia state first more = some step → ∀ piece ∈ step.pieces, IsClosed piece) :
    ReadsAhead conditionals rest state first more := by
  generalize htext : first :: more = text at h
  cases h with
  | done => simp at htext
  | @within atLineStart line lines hline hstart hlines =>
    cases line with
    | nil =>
      obtain ⟨rfl, rfl⟩ : first = '\n' ∧ more = Text.unlines lines := by simpa using htext
      exact .of_step _ _ (readTrivia_feed _ _) (readTrivia_feed _ _) (.start hlines) (by simp [Conditional.feed])
    | cons c line =>
      obtain ⟨rfl, rfl⟩ : first = c ∧ more = line ++ '\n' :: Text.unlines lines := by simpa using htext
      cases hblank : Text.isBlank first with
      | true => exact .blanks hline hlines hblank hstart
      | false =>
        rw [readTrivia_content hblank] at hclosed
        cases hcomment : Text.startsWith "//".toList (first :: line) with
        | true => exact .lineComment hline hlines hblank hcomment
        | false =>
          cases hblock : Text.startsWith "/*".toList (first :: line) with
          | true =>
            refine .blockComment hline hlines hblank hcomment hblock (hclosed _ ?_)
            rw [if_neg (Bool.eq_false_iff.mp hcomment), if_pos hblock]
          | false =>
            by_cases hdirective : first = '#' ∧ atLineStart = true
            · obtain ⟨hfirst, rfl⟩ := hdirective
              exact .directive hline hlines hfirst (hstart rfl)
            · have hnone (conditionals : List Condition) (more : Text) :
                  readTrivia ⟨atLineStart, conditionals⟩ first (line ++ '\n' :: more) = none := by
                rw [readTrivia_content hblank, hcomment, hblock]
                simpa using hdirective
              refine ⟨?_, by simp [hnone], by simp [hnone]⟩
              rw [List.append_assoc, List.cons_append, hnone, hnone, Option.map_none]

/-- A run over lines alone is a run over the lines in front of more text. It disables no line. -/
theorem Run.ahead {state last : State} {text left : Text} {pieces : List Trivia}
    (hrun : Run state text pieces last left) (h : Alone state text)
    (hclosed : ∀ piece ∈ pieces, IsClosed piece) :
    Alone last left ∧ (∀ piece ∈ pieces, piece.kind ≠ .disabledText) ∧
      Run ⟨state.atLineStart, conditionals⟩ (text ++ rest) pieces
        ⟨last.atLineStart, conditionals⟩ (left ++ rest) := by
  induction hrun with
  | stay state text => exact ⟨h, by simp, .stay _ _⟩
  | @step state last first more left step pieces hread _ ih =>
    obtain ⟨hfirst, hmore⟩ := List.forall_mem_append.mp hclosed
    have hreads := h.readsAhead conditionals rest fun step' hstep => by
      obtain rfl := Option.some.inj (hread.symm.trans hstep)
      exact hfirst
    obtain ⟨hlast, hkinds, hrun⟩ := ih (hreads.alone hread) hmore
    have hahead := hreads.ahead
    rw [hread, Option.map_some] at hahead
    have hnext : Run ⟨state.atLineStart, conditionals⟩ (first :: (more ++ rest))
        ((step.ahead conditionals rest).pieces ++ pieces) _ _ := .step hahead hrun
    exact ⟨hlast, List.forall_mem_append.mpr ⟨hreads.live hread, hkinds⟩, hnext⟩

/-- The reading of lines alone is what is read of them in front of more text. -/
theorem readOn_lines {text : Text} (h : Alone {} text) (hclosed : ∀ piece ∈ (read text).1, IsClosed piece) :
    readOn ⟨true, conditionals⟩ (text ++ rest) =
      Reading.andThen (read text) (readOn ⟨true, conditionals⟩ rest) := by
  obtain ⟨last, left, hrun, hstop⟩ := exists_run {} text
  obtain ⟨halone, -, hahead⟩ := hrun.ahead conditionals rest h hclosed
  rw [hahead.readOn_eq, show read text = readOn {} text from rfl]
  cases htoken : (readOn {} text).2 with
  | none =>
    rw [htoken] at hstop
    obtain rfl := hstop.left_eq_nil
    obtain rfl := halone.eq_of_nil
    simp [Reading.andThen, htoken]
  | some token =>
    cases left with
    | nil => simp [htoken, Stops] at hstop
    | cons first more =>
      obtain ⟨hnone, htext⟩ := hstop
      have hread := (halone.readsAhead conditionals rest (by simp [hnone])).ahead
      rw [hnone, Option.map_none] at hread
      have htake : (first :: more ++ rest).takeWhile (!Text.isBlank ·) =
          (first :: more).takeWhile (!Text.isBlank ·) := by
        obtain ⟨line, lines, hleft⟩ := halone.exists_line
        rw [hleft, List.append_assoc, List.cons_append, Text.takeWhile_line (by decide),
          Text.takeWhile_line (by decide)]
      rw [List.cons_append, readOn_token hread, ← List.cons_append, htake, ← htext]
      simp only [Reading.andThen, htoken, List.append_nil]
      exact Prod.ext rfl htoken.symm

theorem read_not_disabledText {text : Text} (h : Alone {} text)
    (hclosed : ∀ piece ∈ (read text).1, IsClosed piece) :
    ∀ piece ∈ (read text).1, piece.kind ≠ .disabledText := by
  obtain ⟨last, left, hrun, -⟩ := exists_run {} text
  exact (hrun.ahead [] [] h hclosed).2.1

end

end SourceOrigin.Lexer
