import SourceOrigin.Proofs.Lexer.DisabledRun
import SourceOrigin.Proofs.Lexer.Tiling
import Mathlib.Data.List.Infix

/-! How far the lexer looks ahead. The search for the end of a piece ends inside what a step reads, so the step is the
same before any text that resembles the one that it leaves. -/
namespace SourceOrigin.Lexer
variable {state last : State} {first : Char} {text rest after left : Text} {pieces : List Trivia}

private theorem startsWith_lineAt {start : Text} (hstart : Text.Unbroken start)
    (h : ∀ c ∈ after.head?, Text.isBreak c = true) :
    Text.startsWith start (Text.lineAt text ++ after) = Text.startsWith start text := by
  have hpass : ∀ rest : Text, (∀ c ∈ rest.head?, Text.isBreak c = true) →
      Text.startsWith start (Text.lineAt text ++ rest) = Text.startsWith start (Text.lineAt text) := by
    intro rest hrest
    refine Text.startsWith_append (fun c hc hmem => ?_) _
    exact absurd (hrest c hc) (by simp [hstart c hmem])
  have hwhole := hpass _ (Text.isBreak_of_mem_afterLine text)
  rw [Text.lineAt_append_afterLine] at hwhole
  rw [hpass after h, hwhole]

private theorem readLineComment_append (state : State) (h : ∀ c ∈ after.head?, Text.isBreak c = true) :
    readLineComment state (Text.lineAt text ++ after) = ⟨(readLineComment state text).pieces, after, state⟩ := by
  obtain ⟨hlineAt, hafterLine⟩ := Text.line_append (Text.unbroken_lineAt text) h
  simp only [readLineComment, hlineAt, hafterLine, startsWith_lineAt (show Text.Unbroken "///".toList by decide) h,
    startsWith_lineAt (show Text.Unbroken "////".toList by decide) h]

theorem closerEnd_pass {c : Char} {text : Text} (h : ¬ (c = '*' ∧ ∃ rest, text = '/' :: rest))
    (before : Nat) : closerEnd before (c :: text) = closerEnd (before + 1) text := by
  rw [closerEnd]
  rintro rest rfl rfl
  exact h ⟨rfl, rest, rfl⟩

theorem closerEnd_add (before : Nat) (text : Text) :
    closerEnd before text = before + closerEnd 0 text := by
  induction text generalizing before with
  | nil => simp [closerEnd]
  | cons c text ih =>
    by_cases h : c = '*' ∧ ∃ rest, text = '/' :: rest
    · obtain ⟨rfl, rest, rfl⟩ := h
      simp [closerEnd]
    · rw [closerEnd_pass h, closerEnd_pass h, ih (before + 1), ih (0 + 1)]
      omega

private theorem closerEnd_cons {c : Char} {text : Text} (h : ¬ (c = '*' ∧ ∃ rest, text = '/' :: rest)) :
    closerEnd 0 (c :: text) = closerEnd 0 text + 1 := by
  rw [closerEnd_pass h, closerEnd_add]
  omega

private theorem two_le_closerEnd (h : closerEnd 0 text < text.length) : 2 ≤ closerEnd 0 text := by
  induction text with
  | nil => simp at h
  | cons c text ih =>
    by_cases hcloser : c = '*' ∧ ∃ rest, text = '/' :: rest
    · obtain ⟨rfl, rest, rfl⟩ := hcloser
      simp [closerEnd]
    · rw [closerEnd_cons hcloser, List.length_cons] at h
      have hmore := ih (by omega)
      rw [closerEnd_cons hcloser]
      omega

/-- A comment that ends within a text is closed there, whatever follows. -/
private theorem closerEnd_take_append (h : closerEnd 0 text < text.length) (after : Text) :
    closerEnd 0 (text.take (closerEnd 0 text) ++ after) = closerEnd 0 text := by
  induction text with
  | nil => simp at h
  | cons c text ih =>
    by_cases hcloser : c = '*' ∧ ∃ rest, text = '/' :: rest
    · obtain ⟨rfl, rest, rfl⟩ := hcloser
      simp [closerEnd]
    · rw [closerEnd_cons hcloser, List.length_cons] at h
      have hend : closerEnd 0 text < text.length := by omega
      -- The closer stands further behind, so the character that follows is one of the comment.
      have hpass : ¬ (c = '*' ∧ ∃ rest, text.take (closerEnd 0 text) ++ after = '/' :: rest) := by
        rintro ⟨rfl, rest, hrest⟩
        cases text with
        | nil => simp at hend
        | cons d text =>
          obtain ⟨length, hlength⟩ := Nat.exists_eq_add_of_le (two_le_closerEnd hend)
          rw [hlength, Nat.add_comm, List.take_succ_cons, List.cons_append] at hrest
          exact hcloser ⟨rfl, text, by rw [(List.cons.inj hrest).1]⟩
      rw [closerEnd_cons hcloser, List.take_succ_cons, List.cons_append, closerEnd_cons hpass, ih hend]

/-- What tells a block comment and documentation is found within the comment. -/
private theorem startsWith_blockComment {start : Text} (hstart : start.length ≤ 4)
    (h : (readBlockComment state text).rest ≠ []) (after : Text) :
    Text.startsWith start (Trivia.texts (readBlockComment state text).pieces ++ after) =
      Text.startsWith start text := by
  have hlength : closerEnd 2 (text.drop 2) < text.length := by simpa [readBlockComment] using h
  have htwo : 2 ≤ closerEnd 0 (text.drop 2) := by
    apply two_le_closerEnd
    rw [closerEnd_add] at hlength
    rw [List.length_drop]
    omega
  simp only [readBlockComment, Trivia.texts_cons, Trivia.texts_nil, List.append_nil]
  have hpass : ∀ rest : Text, Text.startsWith start (text.take (closerEnd 2 (text.drop 2)) ++ rest) =
      Text.startsWith start (text.take (closerEnd 2 (text.drop 2))) := by
    intro rest
    rw [Bool.eq_iff_iff, List.isPrefixOf_iff_prefix, List.isPrefixOf_iff_prefix]
    apply List.isPrefix_append_of_length
    rw [List.length_take_of_le hlength.le, closerEnd_add]
    omega
  have hwhole := hpass (text.drop (closerEnd 2 (text.drop 2)))
  rw [List.take_append_drop] at hwhole
  rw [hpass after, hwhole]

theorem readBlockComment_append (h : (readBlockComment state text).rest ≠ []) :
    readBlockComment state (Trivia.texts (readBlockComment state text).pieces ++ after) =
      ⟨(readBlockComment state text).pieces, after, (readBlockComment state text).state⟩ := by
  have hdoc := startsWith_blockComment (show "/**".toList.length ≤ 4 by decide) h after
  have hplain := startsWith_blockComment (show "/**/".toList.length ≤ 4 by decide) h after
  have hlength : closerEnd 2 (text.drop 2) < text.length := by simpa [readBlockComment] using h
  rw [closerEnd_add] at hlength
  have hend : closerEnd 0 (text.drop 2) < (text.drop 2).length := by
    rw [List.length_drop]
    omega
  have htake := closerEnd_take_append hend after
  simp only [readBlockComment, closerEnd_add 2, Trivia.texts_cons, Trivia.texts_nil, List.append_nil] at hdoc hplain ⊢
  generalize closerEnd 0 (text.drop 2) = behind at *
  have hpiece : (text.take (2 + behind)).length = 2 + behind := List.length_take_of_le hlength.le
  have hdrop : (text.take (2 + behind) ++ after).drop 2 = (text.drop 2).take behind ++ after := by
    rw [List.drop_append_of_le_length (by omega), List.drop_take, Nat.add_sub_cancel_left]
  rw [hdrop, htake, hdoc, hplain, List.take_left' hpiece, List.drop_left' hpiece]

private theorem exists_readDisabled_eq (toAlternative : Bool) (text : Text) : ∃ skipped left,
    Skips toAlternative 0 (Text.afterBreak text) skipped left ∧
      readDisabled toAlternative text =
        ((if Text.breakAt text = [] then [] else [⟨.endOfLine, Text.breakAt text⟩]) ++
          (if skipped.length = 0 then [] else [⟨.disabledText, skipped⟩]), left) := by
  obtain ⟨skipped, left, hskips⟩ := exists_skips toAlternative 0 (Text.afterBreak text)
  refine ⟨skipped, left, hskips, ?_⟩
  simp only [readDisabled, hskips.disabledLength_eq, Nat.zero_add]
  rw [← hskips.append_eq, List.take_left, List.drop_left]

/-- A disabled run that comes to an end ends before a directive. -/
theorem ofLine?_readDisabled {toAlternative : Bool} (h : (readDisabled toAlternative text).2 ≠ []) :
    Directive.ofLine? (Text.lineAt (readDisabled toAlternative text).2) ≠ none := by
  obtain ⟨skipped, left, hskips, hread⟩ := exists_readDisabled_eq toAlternative text
  rw [hread] at h ⊢
  exact hskips.ofLine?_ne_none h

private theorem readDisabled_append {toAlternative : Bool} (hne : (readDisabled toAlternative text).2 ≠ [])
    (hhead : after.head? = (readDisabled toAlternative text).2.head?)
    (hline : Text.lineAt after = Text.lineAt (readDisabled toAlternative text).2) :
    readDisabled toAlternative (Trivia.texts (readDisabled toAlternative text).1 ++ after) =
      ((readDisabled toAlternative text).1, after) := by
  obtain ⟨skipped, left, hskips, hread⟩ := exists_readDisabled_eq toAlternative text
  rw [hread] at hne hhead hline
  have htexts : Trivia.texts (readDisabled toAlternative text).1 = Text.breakAt text ++ skipped := by
    rw [hread, Trivia.texts_append]
    congr 1
    · split <;> simp_all
    · split <;> simp_all
  have hbegin : (skipped ++ after).head? = (Text.afterBreak text).head? := by
    rw [← hskips.append_eq, List.head?_append, List.head?_append, hhead]
  obtain ⟨hbreakAt, hafterBreak⟩ := Text.breakAt_append (.inr hbegin)
  rw [htexts, List.append_assoc, hread]
  simp only [readDisabled, hbreakAt, hafterBreak, (hskips.replace hne hhead hline).disabledLength_eq, Nat.zero_add,
    List.take_left, List.drop_left]

/-- What a step cannot tell from the text that it leaves: a text that begins alike or is at its end and, if a
directive comes next, holds the same line. -/
structure Resembles (state : State) (left after : Text) : Prop where
  nonempty : left ≠ []
  head : after = [] ∨ after.head? = left.head?
  line : state.atLineStart = true → Directive.ofLine? (Text.lineAt left) ≠ none →
    after.head? = left.head? ∧ Text.lineAt after = Text.lineAt left

private theorem Resembles.forall_head {p : Char → Prop} (h : Resembles state left after) (hleft : ∀ c ∈ left.head?, p c) :
    ∀ c ∈ after.head?, p c := by
  rcases h.head with rfl | hhead
  · simp
  · rwa [hhead]

private theorem readDirective_append (hstart : state.atLineStart = true)
    (h : Resembles (readDirective state text).state (readDirective state text).rest after) :
    readDirective state (Trivia.texts (readDirective state text).pieces ++ after) =
      ⟨(readDirective state text).pieces, after, (readDirective state text).state⟩ := by
  obtain ⟨conditionals, continuation, htrack⟩ : ∃ conditionals continuation,
      Directive.track (Directive.ofText ((Text.lineAt text).drop 1)) state.conditionals =
        (conditionals, continuation) := ⟨_, _, rfl⟩
  cases continuation with
  | live =>
    simp only [readDirective, htrack] at h ⊢
    obtain ⟨hlineAt, hafterLine⟩ := Text.line_append (Text.unbroken_lineAt text)
      (h.forall_head (Text.isBreak_of_mem_afterLine text))
    simp only [Trivia.texts_cons, Trivia.texts_nil, List.append_nil, hlineAt, hafterLine, htrack]
  | disabled toAlternative =>
    simp only [readDirective, htrack] at h ⊢
    obtain ⟨hhead, hline⟩ := h.line hstart (ofLine?_readDisabled h.nonempty)
    have hbegin : (Trivia.texts (readDisabled toAlternative (Text.afterLine text)).1 ++ after).head? =
        (Text.afterLine text).head? := by
      conv_rhs => rw [← (tiles_readDisabled toAlternative (Text.afterLine text)).covers]
      rw [List.head?_append, List.head?_append, hhead]
    obtain ⟨hlineAt, hafterLine⟩ := Text.line_append (Text.unbroken_lineAt text)
      (hbegin ▸ Text.isBreak_of_mem_afterLine text)
    simp only [Trivia.texts_cons, List.append_assoc, hlineAt, hafterLine, htrack,
      readDisabled_append h.nonempty hhead hline]

theorem readTrivia_of_isInlineBlank (h : Text.isInlineBlank first = true) (state : State) (more : Text) :
    readTrivia state first more = some ⟨[⟨.whitespace, (first :: more).takeWhile Text.isInlineBlank⟩],
      (first :: more).dropWhile Text.isInlineBlank, state⟩ := by
  obtain ⟨hblank, hbreak⟩ : Text.isBlank first = true ∧ Text.isBreak first = false := by
    simpa [Text.isInlineBlank] using h
  simp [readTrivia, hblank, hbreak]

theorem readTrivia_of_not_isBlank (h : Text.isBlank first = false) (state : State) (more : Text) :
    readTrivia state first more =
      if Text.startsWith "//".toList (first :: more) then some (readLineComment state (first :: more))
      else if Text.startsWith "/*".toList (first :: more) then
        some (readBlockComment state (first :: more))
      else if first = '#' && state.atLineStart then some (readDirective state (first :: more))
      else none := by
  simp [readTrivia, h, Text.isBreak_of_not_isBlank h]

/-- The pieces of a step begin with the character that the step begins with. -/
private theorem exists_texts_eq_cons {step : Step} (hread : readTrivia state first rest = some step) :
    ∃ more, Trivia.texts step.pieces = first :: more := by
  have hcovers := (tiles_readTrivia hread).covers
  have hlt := length_readTrivia_lt hread
  cases htexts : Trivia.texts step.pieces with
  | nil =>
    rw [htexts, List.nil_append] at hcovers
    simp [hcovers] at hlt
  | cons c more =>
    rw [htexts, List.cons_append] at hcovers
    exact ⟨more, by rw [(List.cons.inj hcovers).1]⟩

/-- A step does the same before a text that resembles the one that it leaves. -/
theorem readTrivia_append {step : Step} (hread : readTrivia state first rest = some step)
    (h : Resembles step.state step.rest after) : ∃ rest', Trivia.texts step.pieces ++ after = first :: rest' ∧
      readTrivia state first rest' = some ⟨step.pieces, after, step.state⟩ := by
  obtain ⟨more, hmore⟩ := exists_texts_eq_cons hread
  have htext : Trivia.texts step.pieces ++ after = first :: (more ++ after) := by rw [hmore, List.cons_append]
  refine ⟨more ++ after, htext, ?_⟩
  by_cases hbreak : Text.isBreak first = true
  · rw [readTrivia, if_pos hbreak] at hread ⊢
    obtain rfl := Option.some.inj hread
    obtain ⟨hbreakAt, hafterBreak⟩ := Text.breakAt_append h.head
    simp only [← htext, Trivia.texts_cons, Trivia.texts_nil, List.append_nil, hbreakAt, hafterBreak]
  by_cases hblank : Text.isBlank first = true
  · have hinline : Text.isInlineBlank first = true := by simp [Text.isInlineBlank, hblank, hbreak]
    rw [readTrivia_of_isInlineBlank hinline] at hread ⊢
    obtain rfl := Option.some.inj hread
    have hrun : ∀ c ∈ (first :: rest).takeWhile Text.isInlineBlank, Text.isInlineBlank c = true :=
      fun c hc => List.mem_takeWhile_imp hc
    obtain ⟨htake, hdrop⟩ := Text.span_append hrun (h.forall_head (Text.head?_dropWhile _))
    simp only [← htext, Trivia.texts_cons, Trivia.texts_nil, List.append_nil, htake, hdrop]
  rw [readTrivia_of_not_isBlank (Bool.eq_false_iff.mpr hblank)] at hread ⊢
  rw [← htext]
  split at hread
  · next hcomment =>
    obtain rfl := Option.some.inj hread
    have hhead : ∀ c ∈ after.head?, Text.isBreak c = true := h.forall_head (Text.isBreak_of_mem_afterLine _)
    have htexts : Trivia.texts (readLineComment state (first :: rest)).pieces = Text.lineAt (first :: rest) := by
      simp [readLineComment]
    rw [htexts, startsWith_lineAt (by decide) hhead, if_pos hcomment, readLineComment_append state hhead]
    rfl
  next hcomment =>
  split at hread
  · next hblock =>
    obtain rfl := Option.some.inj hread
    rw [startsWith_blockComment (by decide) h.nonempty after, startsWith_blockComment (by decide) h.nonempty after,
      if_neg hcomment, if_pos hblock, readBlockComment_append h.nonempty]
  next hblock =>
  split at hread
  · next hdirective =>
    obtain ⟨rfl, hstart⟩ : first = '#' ∧ state.atLineStart = true := by simpa using hdirective
    obtain rfl := Option.some.inj hread
    rw [readDirective_append hstart h, htext]
    simp [hstart, Text.startsWith, List.isPrefixOf]
  · simp at hread

end SourceOrigin.Lexer
