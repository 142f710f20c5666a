import SourceOrigin.Proofs.Conditional.Reference
import SourceOrigin.Proofs.Lexer.Lookahead
import SourceOrigin.Proofs.Text.Break

/-! What a step of the lexer reads, told by the text and not by the search for the end of a piece: the text is a piece of
a known shape in front of a rest that does not go on with it. `readTrivia_eq_some_iff` says that the lexer takes these
steps and no others. -/
namespace SourceOrigin.Lexer
variable {state : State} {first : Char} {text body rest : Text} {step : Step}

theorem texts_optionalPiece (kind : TriviaKind) (text : Text) :
    Trivia.texts (Conditional.optionalPiece kind text) = text := by
  unfold Conditional.optionalPiece
  split <;> simp_all

/-- The text ends in the only comment closer that it holds. -/
def Closes (body : Text) : Prop :=
  "*/".toList <:+ body ∧ ∀ front behind, body = front ++ ("*/".toList ++ behind) → behind = []

def blockKind (comment : Text) : TriviaKind :=
  if "/**".toList <+: comment ∧ ¬ "/**/".toList <+: comment then .blockDocComment else .blockComment

theorem blockKind_ne_disabledText (comment : Text) : blockKind comment ≠ .disabledText := by
  unfold blockKind
  split <;> simp

private theorem closes_of_closer : Closes "*/".toList := by
  refine ⟨List.suffix_rfl, fun front behind h => ?_⟩
  have hlength := congrArg List.length h
  simp only [List.length_append] at hlength
  exact List.length_eq_zero_iff.mp (by omega)

private theorem closes_cons {c : Char} (h : ¬ (c = '*' ∧ ∃ rest, body = '/' :: rest)) :
    Closes (c :: body) ↔ Closes body := by
  constructor
  · rintro ⟨hsuffix, hfirst⟩
    refine ⟨?_, fun front behind hbody => hfirst (c :: front) behind (by rw [hbody, List.cons_append])⟩
    rcases List.suffix_cons_iff.mp hsuffix with heq | hsuffix
    · obtain ⟨hc, hbody⟩ := List.cons.inj heq
      exact absurd ⟨hc.symm, [], hbody.symm⟩ h
    · exact hsuffix
  · rintro ⟨hsuffix, hfirst⟩
    refine ⟨hsuffix.trans (List.suffix_cons _ _), fun front behind hbody => ?_⟩
    cases front with
    | nil =>
      obtain ⟨rfl, hrest⟩ := List.cons.inj hbody
      exact absurd ⟨rfl, _, hrest⟩ h
    | cons d front => exact hfirst front behind (List.cons.inj hbody).2

private theorem infix_closer_cons {c : Char} (h : ¬ (c = '*' ∧ ∃ rest, body = '/' :: rest)) :
    "*/".toList <:+: c :: body ↔ "*/".toList <:+: body := by
  rw [List.infix_cons_iff]
  refine or_iff_right ?_
  rintro ⟨rest, hrest⟩
  obtain ⟨hc, hbody⟩ := List.cons.inj hrest
  exact h ⟨hc.symm, rest, hbody.symm⟩

private theorem closerEnd_of_closes (h : Closes body) (rest : Text) : closerEnd 0 (body ++ rest) = body.length := by
  induction body with
  | nil => simp [Closes] at h
  | cons c body ih =>
    by_cases hcloser : c = '*' ∧ ∃ rest, body = '/' :: rest
    · obtain ⟨rfl, behind, rfl⟩ := hcloser
      obtain rfl := h.2 [] behind rfl
      rfl
    · have hpass : ¬ (c = '*' ∧ ∃ more, body ++ rest = '/' :: more) := by
        rintro ⟨rfl, more, hmore⟩
        cases body with
        | nil =>
          have hsuffix := h.1.length_le
          simp at hsuffix
        | cons d body => exact hcloser ⟨rfl, body, by rw [(List.cons.inj hmore).1]⟩
      rw [List.cons_append, closerEnd_pass hpass, closerEnd_add, ih ((closes_cons hcloser).mp h), List.length_cons,
        Nat.zero_add, Nat.add_comm]

private theorem closerEnd_of_not_infix (h : ¬ "*/".toList <:+: body) : closerEnd 0 body = body.length := by
  induction body with
  | nil => rfl
  | cons c body ih =>
    by_cases hcloser : c = '*' ∧ ∃ rest, body = '/' :: rest
    · obtain ⟨rfl, rest, rfl⟩ := hcloser
      exact absurd ⟨[], rest, rfl⟩ h
    · rw [closerEnd_pass hcloser, closerEnd_add, ih (mt (infix_closer_cons hcloser).mpr h), List.length_cons,
        Nat.zero_add, Nat.add_comm]

private theorem exists_closes (text : Text) : ∃ body rest, text = body ++ rest ∧
    (Closes body ∨ ¬ "*/".toList <:+: body ∧ rest = []) := by
  induction text with
  | nil => exact ⟨[], [], rfl, .inr ⟨by decide, rfl⟩⟩
  | cons c text ih =>
    by_cases hcloser : c = '*' ∧ ∃ rest, text = '/' :: rest
    · obtain ⟨rfl, rest, rfl⟩ := hcloser
      exact ⟨"*/".toList, rest, rfl, .inl closes_of_closer⟩
    · obtain ⟨body, rest, rfl, hbody⟩ := ih
      refine ⟨c :: body, rest, rfl, ?_⟩
      have hpass : ¬ (c = '*' ∧ ∃ more, body = '/' :: more) := by
        rintro ⟨rfl, more, rfl⟩
        exact hcloser ⟨rfl, more ++ rest, rfl⟩
      rwa [closes_cons hpass, infix_closer_cons hpass]

section
variable {front text' : Text}

/-- Behind characters that are no stars a text closes as before. -/
theorem closes_of_starless (h : '*' ∉ front) :
    (Closes (front ++ body) ↔ Closes body) ∧ ("*/".toList <:+: front ++ body ↔ "*/".toList <:+: body) := by
  induction front with
  | nil => exact ⟨.rfl, .rfl⟩
  | cons c front ih =>
    have hpass : ¬ (c = '*' ∧ ∃ rest, front ++ body = '/' :: rest) := by
      rintro ⟨rfl, -⟩
      exact h List.mem_cons_self
    rw [List.cons_append, closes_cons hpass, infix_closer_cons hpass]
    exact ih fun hmem => h (List.mem_cons_of_mem c hmem)

/-- Texts that close alike do so behind another text, if no closer lies across the cut. -/
theorem closes_append_iff (hne : text ≠ []) (hne' : text' ≠ []) (hhead : ∀ c ∈ text.head?, c ≠ '/')
    (hhead' : ∀ c ∈ text'.head?, c ≠ '/') (hcloses : Closes text ↔ Closes text')
    (hholds : "*/".toList <:+: text ↔ "*/".toList <:+: text') (front : Text) :
    (Closes (front ++ text) ↔ Closes (front ++ text')) ∧
      ("*/".toList <:+: front ++ text ↔ "*/".toList <:+: front ++ text') := by
  induction front with
  | nil => exact ⟨hcloses, hholds⟩
  | cons c front ih =>
    by_cases hcloser : c = '*' ∧ ∃ rest, front = '/' :: rest
    · obtain ⟨rfl, rest, rfl⟩ := hcloser
      have hopen : ∀ text : Text, text ≠ [] → ¬ Closes ('*' :: '/' :: rest ++ text) := by
        intro text hne hcloses
        exact hne (List.append_eq_nil_iff.mp (hcloses.2 [] (rest ++ text) rfl)).2
      exact ⟨iff_of_false (hopen text hne) (hopen text' hne'),
        iff_of_true ⟨[], rest ++ text, rfl⟩ ⟨[], rest ++ text', rfl⟩⟩
    · have hpass : ∀ text : Text, (∀ c ∈ text.head?, c ≠ '/') → ¬ (c = '*' ∧ ∃ rest, front ++ text = '/' :: rest) := by
        rintro text hhead ⟨rfl, rest, hrest⟩
        cases front with
        | nil => exact hhead '/' (by rw [show text = '/' :: rest from hrest]; rfl) rfl
        | cons d front => exact hcloser ⟨rfl, front, by rw [(List.cons.inj hrest).1]⟩
      rw [List.cons_append, List.cons_append, closes_cons (hpass text hhead), closes_cons (hpass text' hhead'),
        infix_closer_cons (hpass text hhead), infix_closer_cons (hpass text' hhead')]
      exact ih

/-- No comment ends in characters that are no stars and do not begin with a slash. -/
theorem not_closes_append (hne : text ≠ []) (hhead : ∀ c ∈ text.head?, c ≠ '/') (hstar : '*' ∉ text) (front : Text) :
    ¬ Closes (front ++ text) := by
  have hopen : ∀ text : Text, '*' ∉ text → ¬ Closes text ∧ ¬ "*/".toList <:+: text := by
    intro text hstar
    have hstarless := @closes_of_starless [] text hstar
    rw [List.append_nil] at hstarless
    rw [hstarless.1, hstarless.2]
    exact ⟨by simp [Closes], by simp⟩
  obtain ⟨hcloses, hholds⟩ := hopen text hstar
  obtain ⟨hcloses', hholds'⟩ := hopen ['#'] (by simp)
  rw [(closes_append_iff hne (List.cons_ne_nil '#' []) hhead (by simp) (iff_of_false hcloses hcloses')
    (iff_of_false hholds hholds') front).1]
  rintro ⟨⟨more, hmore⟩, -⟩
  have hlast := congrArg List.getLast? hmore
  simp at hlast

end

/-- Behind a comment the text may be cut. -/
theorem cleanCut_of_closes (h : Closes body ∨ ¬ "*/".toList <:+: body ∧ rest = []) : Text.CleanCut body rest := by
  rcases h with ⟨⟨front, rfl⟩, -⟩ | ⟨-, rfl⟩
  · exact Text.CleanCut.append_left (Text.cleanCut_of_unbroken (by decide) rest) (by simp) front
  · exact Text.cleanCut_nil_right body

/-- A disabling directive that ends the text takes nothing along, and any other takes the break behind it. -/
theorem skips_cases {toAlternative : Bool} {skipped left : Text} (hrest : ∀ c ∈ rest.head?, Text.isBreak c = true)
    (h : Skips toAlternative 0 (Text.afterBreak rest) skipped left) :
    rest = [] ∧ skipped = [] ∧ left = [] ∨
      Text.breakAt rest ∈ Text.breakForms ∧ Text.CleanCut (Text.breakAt rest) (skipped ++ left) := by
  cases rest with
  | nil => exact .inl ⟨rfl, List.append_eq_nil_iff.mp h.append_eq⟩
  | cons c rest =>
    right
    rw [h.append_eq]
    exact Text.breakAt_mem_breakForms (Text.breakAt_ne_nil (hrest c rfl) rest)

/-- The steps of the lexer. In each the text is a piece in front of a rest, and the piece could not be longer. -/
inductive Reads (state : State) : Text → Step → Prop where
  | endOfLine {brk rest : Text} : brk ∈ Text.breakForms → Text.CleanCut brk rest →
      Reads state (brk ++ rest) ⟨[⟨.endOfLine, brk⟩], rest, { state with atLineStart := true }⟩
  | whitespace {gap rest : Text} : gap ≠ [] → gap.Inline → (∀ c ∈ rest.head?, Text.isInlineBlank c = false) →
      Reads state (gap ++ rest) ⟨[⟨.whitespace, gap⟩], rest, state⟩
  | lineComment {line rest : Text} : "//".toList <+: line → line.Unbroken →
      (∀ c ∈ rest.head?, Text.isBreak c = true) →
      Reads state (line ++ rest) ⟨[⟨Conditional.commentKind line, line⟩], rest, state⟩
  | blockComment {body rest : Text} : (Closes body ∨ ¬ "*/".toList <:+: body ∧ rest = []) →
      Reads state ("/*".toList ++ body ++ rest)
        ⟨[⟨blockKind ("/*".toList ++ body), "/*".toList ++ body⟩], rest, { state with atLineStart := false }⟩
  | directive {line rest : Text} {conditionals : List Condition} : state.atLineStart = true →
      Text.Unbroken ('#' :: line) → (∀ c ∈ rest.head?, Text.isBreak c = true) →
      Directive.track (Directive.ofText line) state.conditionals = (conditionals, .live) →
      Reads state ('#' :: line ++ rest) ⟨[⟨.directive, '#' :: line⟩], rest, { state with conditionals }⟩
  | disabling {line rest skipped left : Text} {conditionals : List Condition} {toAlternative : Bool} :
      state.atLineStart = true → Text.Unbroken ('#' :: line) → (∀ c ∈ rest.head?, Text.isBreak c = true) →
      Directive.track (Directive.ofText line) state.conditionals = (conditionals, .disabled toAlternative) →
      Skips toAlternative 0 (Text.afterBreak rest) skipped left →
      Reads state ('#' :: line ++ rest)
        ⟨⟨.directive, '#' :: line⟩ :: (Conditional.optionalPiece .endOfLine (Text.breakAt rest) ++
          Conditional.optionalPiece .disabledText skipped), left, { state with conditionals }⟩

/-- Nothing that is looked for within a line is found across its end. -/
private theorem startsWith_line_iff {start line : Text} (hstart : start.Unbroken)
    (hrest : ∀ c ∈ rest.head?, Text.isBreak c = true) :
    Text.startsWith start (line ++ rest) = true ↔ start <+: line := by
  rw [Text.startsWith_append fun c hc hmem => ?_, List.isPrefixOf_iff_prefix]
  exact absurd (hrest c hc) (by simp [hstart c hmem])

private theorem readLineComment_eq {line : Text} (hline : line.Unbroken) (hrest : ∀ c ∈ rest.head?, Text.isBreak c = true) :
    readLineComment state (line ++ rest) = ⟨[⟨Conditional.commentKind line, line⟩], rest, state⟩ := by
  obtain ⟨hlineAt, hafterLine⟩ := Text.line_append hline hrest
  have hdoc := @startsWith_line_iff rest _ line (show Text.Unbroken "///".toList by decide) hrest
  have hplain := @startsWith_line_iff rest _ line (show Text.Unbroken "////".toList by decide) hrest
  simp only [readLineComment, hlineAt, hafterLine, Bool.and_eq_true, Bool.not_eq_true', ← Bool.not_eq_true, hdoc, hplain,
    Conditional.commentKind]

private theorem readBlockComment_eq (h : Closes body ∨ ¬ "*/".toList <:+: body ∧ rest = []) :
    readBlockComment state ("/*".toList ++ body ++ rest) =
      ⟨[⟨blockKind ("/*".toList ++ body), "/*".toList ++ body⟩], rest, { state with atLineStart := false }⟩ := by
  have hend : closerEnd 2 (body ++ rest) = ("/*".toList ++ body).length := by
    rw [closerEnd_add, List.length_append]
    rcases h with hcloses | ⟨hopen, rfl⟩
    · rw [closerEnd_of_closes hcloses]
      rfl
    · rw [List.append_nil, closerEnd_of_not_infix hopen]
      rfl
  -- What tells documentation stands within the comment: it is four characters long, or all of the text.
  have hstart : ∀ start : Text, start.length ≤ 4 →
      (Text.startsWith start ("/*".toList ++ body ++ rest) = true ↔ start <+: "/*".toList ++ body) := by
    intro start hlength
    rw [List.isPrefixOf_iff_prefix]
    rcases h with hcloses | ⟨-, rfl⟩
    · refine ⟨fun hprefix => ?_, fun hprefix => hprefix.trans (List.prefix_append _ _)⟩
      refine List.prefix_of_prefix_length_le hprefix (List.prefix_append _ _) (hlength.trans ?_)
      have htwo := hcloses.1.length_le
      rw [List.length_append]
      exact Nat.add_le_add_left htwo 2
    · rw [List.append_nil]
  have hdrop : ("/*".toList ++ body ++ rest).drop 2 = body ++ rest := by simp
  simp only [readBlockComment, hdrop, hend, List.take_left, List.drop_left, Bool.and_eq_true, Bool.not_eq_true',
    ← Bool.not_eq_true, hstart "/**".toList (by decide), hstart "/**/".toList (by decide), blockKind]

/-- A disabled run is the break behind its directive and the lines that are skipped. -/
theorem readDisabled_eq {toAlternative : Bool} {skipped left : Text}
    (h : Skips toAlternative 0 (Text.afterBreak text) skipped left) :
    readDisabled toAlternative text = (Conditional.optionalPiece .endOfLine (Text.breakAt text) ++
      Conditional.optionalPiece .disabledText skipped, left) := by
  simp only [readDisabled, h.disabledLength_eq, Nat.zero_add, Conditional.optionalPiece, List.length_eq_zero_iff]
  rw [← h.append_eq, List.take_left, List.drop_left]

theorem Reads.readTrivia_eq (h : Reads state text step) :
    ∃ first rest, text = first :: rest ∧ readTrivia state first rest = some step := by
  cases h with
  | @endOfLine brk rest hform hcut =>
    obtain ⟨first, more, rfl⟩ := List.exists_cons_of_ne_nil (Text.ne_nil_of_mem_breakForms hform)
    obtain ⟨hbreakAt, hafterBreak⟩ := Text.breakAt_form hform hcut
    refine ⟨first, more ++ rest, rfl, ?_⟩
    rw [readTrivia, if_pos (Text.isBreak_of_mem_breakForms hform first List.mem_cons_self), ← List.cons_append,
      hbreakAt, hafterBreak]
  | @whitespace gap rest hne hinline hrest =>
    obtain ⟨first, more, rfl⟩ := List.exists_cons_of_ne_nil hne
    obtain ⟨htake, hdrop⟩ := Text.span_append hinline hrest
    refine ⟨first, more ++ rest, rfl, ?_⟩
    rw [readTrivia_of_isInlineBlank (hinline first List.mem_cons_self), ← List.cons_append, htake, hdrop]
  | @lineComment line rest hstart hunbroken hrest =>
    obtain ⟨line, rfl⟩ := hstart
    refine ⟨'/', '/' :: (line ++ rest), rfl, ?_⟩
    rw [readTrivia_of_not_isBlank (by decide), if_pos (by rfl)]
    exact congrArg some (readLineComment_eq hunbroken hrest)
  | @blockComment body rest hbody =>
    refine ⟨'/', '*' :: (body ++ rest), rfl, ?_⟩
    rw [readTrivia_of_not_isBlank (by decide), if_neg (by simp [Text.startsWith]), if_pos (by rfl)]
    exact congrArg some (readBlockComment_eq hbody)
  | @directive line rest conditionals hstart hunbroken hrest htrack =>
    obtain ⟨hlineAt, hafterLine⟩ := Text.line_append hunbroken hrest
    refine ⟨'#', line ++ rest, rfl, ?_⟩
    rw [readTrivia_of_not_isBlank (by decide), if_neg (by simp [Text.startsWith]), if_neg (by simp [Text.startsWith]),
      if_pos (by simp [hstart]), readDirective, ← List.cons_append, hlineAt, hafterLine]
    simp only [List.drop_succ_cons, List.drop_zero, htrack]
  | @disabling line rest skipped left conditionals toAlternative hstart hunbroken hrest htrack hskips =>
    obtain ⟨hlineAt, hafterLine⟩ := Text.line_append hunbroken hrest
    refine ⟨'#', line ++ rest, rfl, ?_⟩
    rw [readTrivia_of_not_isBlank (by decide), if_neg (by simp [Text.startsWith]), if_neg (by simp [Text.startsWith]),
      if_pos (by simp [hstart]), readDirective, ← List.cons_append, hlineAt, hafterLine]
    simp only [List.drop_succ_cons, List.drop_zero, htrack, readDisabled_eq hskips]

private theorem Reads.of_isBreak (h : Text.isBreak first = true) (state : State) (rest : Text) : Reads state (first :: rest)
    ⟨[⟨.endOfLine, Text.breakAt (first :: rest)⟩], Text.afterBreak (first :: rest), { state with atLineStart := true }⟩ := by
  obtain ⟨hform, hcut⟩ := Text.breakAt_mem_breakForms (Text.breakAt_ne_nil h rest)
  have hreads := @Reads.endOfLine state _ _ hform hcut
  rwa [Text.breakAt_append_afterBreak] at hreads

private theorem Reads.of_isInlineBlank (h : Text.isInlineBlank first = true) (state : State) (rest : Text) :
    Reads state (first :: rest) ⟨[⟨.whitespace, (first :: rest).takeWhile Text.isInlineBlank⟩],
      (first :: rest).dropWhile Text.isInlineBlank, state⟩ := by
  have hreads := @Reads.whitespace state ((first :: rest).takeWhile Text.isInlineBlank) _ (by simp [h])
    (fun c hc => List.mem_takeWhile_imp hc) (Text.head?_dropWhile (first :: rest))
  rwa [List.takeWhile_append_dropWhile] at hreads

private theorem Reads.of_lineComment (h : Text.startsWith "//".toList text = true) (state : State) :
    Reads state text (readLineComment state text) := by
  have hunbroken := Text.unbroken_lineAt text
  have hafter := Text.isBreak_of_mem_afterLine text
  have hslashes : "//".toList <+: Text.lineAt text := by
    rwa [← startsWith_line_iff (by decide) hafter, Text.lineAt_append_afterLine]
  have hreads := @Reads.lineComment state _ _ hslashes hunbroken hafter
  rwa [← readLineComment_eq hunbroken hafter, Text.lineAt_append_afterLine] at hreads

private theorem Reads.of_blockComment (h : Text.startsWith "/*".toList text = true) (state : State) :
    Reads state text (readBlockComment state text) := by
  obtain ⟨more, rfl⟩ := List.isPrefixOf_iff_prefix.mp h
  obtain ⟨body, behind, rfl, hbody⟩ := exists_closes more
  rw [← List.append_assoc, readBlockComment_eq hbody]
  exact .blockComment hbody

private theorem Reads.of_directive (hstart : state.atLineStart = true) (rest : Text) :
    Reads state ('#' :: rest) (readDirective state ('#' :: rest)) := by
  obtain ⟨line, hhash⟩ : ∃ line, Text.lineAt ('#' :: rest) = '#' :: line :=
    ⟨Text.lineAt rest, by simp [show Text.isBreak '#' = false by decide]⟩
  have hline := Text.lineAt_append_afterLine ('#' :: rest)
  have hunbroken := Text.unbroken_lineAt ('#' :: rest)
  have hafter := Text.isBreak_of_mem_afterLine ('#' :: rest)
  simp only [readDirective, hhash, List.drop_succ_cons, List.drop_zero]
  rw [hhash] at hline hunbroken
  generalize Text.afterLine ('#' :: rest) = behind at hline hafter ⊢
  rw [← hline]
  rcases htrack : Directive.track (Directive.ofText line) state.conditionals with ⟨conditionals, _ | toAlternative⟩
  · exact .directive hstart hunbroken hafter htrack
  · obtain ⟨skipped, left, hskips⟩ := exists_skips toAlternative 0 (Text.afterBreak behind)
    simp only [readDisabled_eq hskips]
    exact .disabling hstart hunbroken hafter htrack hskips

private theorem reads_of_readTrivia (h : readTrivia state first rest = some step) : Reads state (first :: rest) step := by
  by_cases hbreak : Text.isBreak first = true
  · rw [readTrivia, if_pos hbreak] at h
    obtain rfl := Option.some.inj h
    exact .of_isBreak hbreak state rest
  by_cases hblank : Text.isBlank first = true
  · have hinline : Text.isInlineBlank first = true := by simp [Text.isInlineBlank, hblank, hbreak]
    rw [readTrivia_of_isInlineBlank hinline] at h
    obtain rfl := Option.some.inj h
    exact .of_isInlineBlank hinline state rest
  rw [readTrivia_of_not_isBlank (Bool.eq_false_iff.mpr hblank)] at h
  split at h
  · next hcomment =>
    obtain rfl := Option.some.inj h
    exact .of_lineComment hcomment state
  split at h
  · next hcomment =>
    obtain rfl := Option.some.inj h
    exact .of_blockComment hcomment state
  split at h
  · next hdirective =>
    obtain ⟨rfl, hstart⟩ : first = '#' ∧ state.atLineStart = true := by simpa using hdirective
    obtain rfl := Option.some.inj h
    exact .of_directive hstart rest
  · simp at h

theorem Reads.run (h : Reads state text step) : Run state text step.pieces step.state step.rest := by
  obtain ⟨first, rest, rfl, hread⟩ := h.readTrivia_eq
  exact .single hread

/-- The lexer takes the steps told by the text, and no others. -/
theorem readTrivia_eq_some_iff : readTrivia state first rest = some step ↔ Reads state (first :: rest) step := by
  refine ⟨reads_of_readTrivia, fun h => ?_⟩
  obtain ⟨first', rest', htext, hread⟩ := h.readTrivia_eq
  obtain ⟨rfl, rfl⟩ := List.cons.inj htext
  exact hread

end SourceOrigin.Lexer
