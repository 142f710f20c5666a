import SourceOrigin.Proofs.Conditional.DirectiveReading
import SourceOrigin.Proofs.Conditional.FirstCloser
import SourceOrigin.Proofs.Lexer.Composition
import SourceOrigin.Proofs.Lexer.FirstToken

/-! The handover from a skip to the lexer. A skip knows no stack of open conditionals but a depth, and the lexer knows no
depth but a stack. Where a skip stops both read the same directive, and it belongs to the innermost conditional. -/
namespace SourceOrigin

namespace Directive
variable {text : Text} {stack : List Condition}

private theorem ofText_of_endif (h : (Text.words text).head? = some "endif".toList) : ofText text = .closing := by
  rw [Text.head?_words_eq_some_iff (by decide)] at h
  simp [ofText, h]

private theorem ofText_of_else (h : (Text.words text).head? = some "else".toList) : ofText text = .alternative .holds := by
  rw [Text.head?_words_eq_some_iff (by decide)] at h
  simp [ofText, h]

private theorem length_track (text : Text) (stack : List Condition) : (track (ofText text) stack).1.length =
    if (Text.words text).head? = some "if".toList then stack.length + 1
    else if (Text.words text).head? = some "endif".toList then stack.length - 1 else stack.length := by
  have halternative : ∀ condition, (track (.alternative condition) stack).1.length = stack.length := by
    intro condition
    unfold track
    split <;> simp_all
  simp only [Text.head?_words_eq_some_iff (show "if".toList ≠ [] by decide),
    Text.head?_words_eq_some_iff (show "endif".toList ≠ [] by decide)]
  rw [ofText]
  by_cases hif : Text.firstWord text = "if".toList
  · simp [hif, track]
  by_cases hendif : Text.firstWord text = "endif".toList
  · cases stack <;> simp [hendif, track]
  by_cases helse : Text.firstWord text = "else".toList
  · simp [helse, halternative]
  by_cases helif : Text.firstWord text = "elif".toList
  · simp [helif, halternative]
  · simp only [if_neg hif, if_neg hendif, if_neg helse, if_neg helif]
    rfl

end Directive

namespace Lexer
open Conditional
variable {state : State} {text rest left : Text} {pieces more : List Trivia}

def hasKeyword (keyword : String) (piece : Trivia) : Prop :=
  piece.kind = .directive ∧ (Text.words (piece.text.drop 1)).head? = some keyword.toList

instance (keyword : String) (piece : Trivia) : Decidable (hasKeyword keyword piece) := inferInstanceAs (Decidable (_ ∧ _))

/-- The places of the directives that have opened the conditionals open behind the trivia, innermost first. A directive that
closes a conditional where none is open changes nothing. -/
def openings (opened : List Nat) (place : Nat) : List Trivia → List Nat
  | [] => opened
  | piece :: pieces =>
    if hasKeyword "if" piece then openings (place :: opened) (place + 1) pieces
    else if hasKeyword "endif" piece then openings opened.tail (place + 1) pieces
    else openings opened (place + 1) pieces

private theorem openings_append (opened : List Nat) (place : Nat) (pieces more : List Trivia) :
    openings opened place (pieces ++ more) = openings (openings opened place pieces) (place + pieces.length) more := by
  induction pieces generalizing opened place with
  | nil => rfl
  | cons piece pieces ih =>
    simp only [List.cons_append, openings, ih, List.length_cons]
    have hplace : place + 1 + pieces.length = place + (pieces.length + 1) := by omega
    rw [hplace]
    split
    · rfl
    · split <;> rfl

private theorem openings_of_not_directive (opened : List Nat) (place : Nat)
    (h : ∀ piece ∈ pieces, piece.kind ≠ .directive) :
    openings opened place pieces = opened := by
  induction pieces generalizing place with
  | nil => rfl
  | cons piece pieces ih =>
    have hpiece := h piece List.mem_cons_self
    rw [openings, if_neg (fun hword => hpiece hword.1), if_neg (fun hword => hpiece hword.1)]
    exact ih _ fun piece hpiece => h piece (List.mem_cons_of_mem _ hpiece)

/-- The stack of the lexer is as high as conditionals are open. -/
theorem length_openBehind {stack : List Condition} {opened : List Nat} (h : stack.length = opened.length) (place : Nat)
    (pieces : List Trivia) : (openBehind stack pieces).length = (openings opened place pieces).length := by
  induction pieces generalizing stack opened place with
  | nil => exact h
  | cons piece pieces ih =>
    have hcons : openBehind stack (piece :: pieces) = openBehind (if piece.kind = .directive then
        (Directive.track (Directive.ofText (piece.text.drop 1)) stack).1 else stack) pieces := rfl
    rw [hcons, openings]
    by_cases hkind : piece.kind = .directive
    · have hlength := Directive.length_track (piece.text.drop 1) stack
      have hword : ∀ keyword, hasKeyword keyword piece ↔ (Text.words (piece.text.drop 1)).head? = some keyword.toList :=
        fun keyword => and_iff_right hkind
      simp only [if_pos hkind, hword]
      split at hlength
      · next hif =>
        rw [if_pos hif]
        exact ih (by rw [hlength, h, List.length_cons]) _
      next hif =>
      rw [if_neg hif]
      split at hlength
      · next hendif =>
        rw [if_pos hendif]
        exact ih (by rw [hlength, h, List.length_tail]) _
      · next hendif =>
        rw [if_neg hendif]
        exact ih (hlength.trans h) _
    · rw [if_neg hkind, if_neg (fun hword => hkind hword.1), if_neg (fun hword => hkind hword.1)]
      exact ih h _

/-- In every run of the lexer the stack is as high as conditionals are open by the directives read. -/
theorem Run.length_conditionals (hrun : Run {} text pieces state left) :
    state.conditionals.length = (openings [] 0 pieces).length := by
  rw [hrun.conditionals_eq]
  exact length_openBehind rfl 0 pieces

private theorem openings_of_skipped (pieces : List Trivia) (directive : Trivia) (brk skipped gap : Text) :
    openings [] 0 (pieces ++ directive :: (optionalPiece .endOfLine brk ++ optionalPiece .disabledText skipped) ++
        optionalPiece .whitespace gap) = openings [] 0 (pieces ++ [directive]) := by
  have hkind : ∀ piece ∈ optionalPiece .endOfLine brk ++ optionalPiece .disabledText skipped ++
      optionalPiece .whitespace gap, piece.kind ≠ .directive := by
    unfold optionalPiece
    split <;> split <;> split <;> simp
  rw [List.append_assoc, List.cons_append, List.append_cons, openings_append, openings_of_not_directive _ _ hkind]

/-- What the lexer makes of the line in front of which a skip has stopped. It reads the blanks of the line and then the
directive, by the first word that the skip has stopped at, and finds the stack as the directive in front of the skip has
left it. -/
structure TakesOver (toAlternative : Bool) (state : State) (left gap line : Text) (next : Step) : Prop where
  lineAt_eq : Text.lineAt left = gap ++ '#' :: line
  inline : gap.Inline
  blanks : Run state left (optionalPiece .whitespace gap) state ('#' :: (line ++ Text.afterLine left))
  reads : readTrivia state '#' (line ++ Text.afterLine left) = some next
  directive : next.pieces.head? = some ⟨.directive, '#' :: line⟩
  tracked : next.state.conditionals = (Directive.track (Directive.ofText line) state.conditionals).1
  keyword_eq : keyword? (Text.lineAt left) = (Text.words line).head?
  endsRun : EndsRun toAlternative (Text.lineAt left)
  innermost : ∃ outer, state.conditionals = (if toAlternative then .fails else .holds) :: outer
  closes : (Text.words line).head? = some "endif".toList →
    next = ⟨[⟨.directive, '#' :: line⟩], Text.afterLine left, { state with conditionals := state.conditionals.tail }⟩
  alternates : (Text.words line).head? = some "else".toList →
    next = ⟨[⟨.directive, '#' :: line⟩], Text.afterLine left,
      { state with conditionals := .holds :: state.conditionals.tail }⟩

private theorem exists_sign_of_endsRun {toAlternative : Bool} (h : EndsRun toAlternative (Text.lineAt left)) :
    ∃ gap more, left = gap ++ '#' :: more ∧ gap.Inline ∧ Text.lineAt left = gap ++ '#' :: Text.lineAt more ∧
      Text.afterLine left = Text.afterLine more := by
  have hstop : Directive.depthBehind? toAlternative 0 (Directive.ofLine? (Text.lineAt left)) = none :=
    depthBehind?_eq_none_iff.mpr ⟨rfl, h⟩
  have hdirective : Directive.ofLine? (Text.lineAt left) ≠ none := by
    intro hnone
    simp [hnone, Directive.depthBehind?] at hstop
  obtain ⟨hsame, hline⟩ := ofLine?_dropWhile left
  have hwhole : left.takeWhile Text.isInlineBlank ++ left.dropWhile Text.isInlineBlank = left :=
    List.takeWhile_append_dropWhile
  have hgap : Text.Inline (left.takeWhile Text.isInlineBlank) := fun c hc => List.mem_takeWhile_imp hc
  have hhead := @Text.head?_dropWhile Text.isInlineBlank left
  generalize left.takeWhile Text.isInlineBlank = gap at hline hwhole hgap
  cases hrest : left.dropWhile Text.isInlineBlank with
  | nil =>
    rw [← hsame, hrest] at hdirective
    exact absurd (by decide) hdirective
  | cons first more =>
    rw [hrest] at hsame hline hwhole hhead
    rw [← hsame] at hdirective
    have hblank : Text.isBlank first = false := by
      have hinline := hhead first rfl
      rw [Text.isInlineBlank, isBreak_of_ofLine? hdirective] at hinline
      simpa using hinline
    obtain rfl := eq_sign_of_ofLine? hblank hdirective
    have hsign : Text.lineAt ('#' :: more) = '#' :: Text.lineAt more := by simp [show Text.isBreak '#' = false by decide]
    rw [hsign] at hline
    refine ⟨gap, more, hwhole.symm, hgap, hline.symm, ?_⟩
    have hunbroken : Text.Unbroken (gap ++ '#' :: Text.lineAt more) := hline ▸ Text.unbroken_lineAt left
    rw [← hwhole, ← (Text.line_append hunbroken (Text.isBreak_of_mem_afterLine more)).2, List.append_assoc,
      List.cons_append, Text.lineAt_append_afterLine]

section
variable {conditionals : List Condition} {toAlternative : Bool} {skipped : Text}

private theorem line_sign (rest : Text) :
    Text.lineAt ('#' :: rest) = '#' :: Text.lineAt rest ∧ Text.afterLine ('#' :: rest) = Text.afterLine rest := by
  simp [show Text.isBreak '#' = false by decide]

private theorem readDirective_eq (state : State) (rest : Text) :
    (readDirective state ('#' :: rest)).pieces.head? = some ⟨.directive, '#' :: Text.lineAt rest⟩ ∧
      (readDirective state ('#' :: rest)).state =
        { state with conditionals := (Directive.track (Directive.ofText (Text.lineAt rest)) state.conditionals).1 } := by
  simp only [readDirective, (line_sign rest).1, List.drop_succ_cons, List.drop_zero]
  split <;> exact ⟨rfl, rfl⟩

private theorem readDirective_of_live
    (htrack : Directive.track (Directive.ofText (Text.lineAt rest)) state.conditionals = (conditionals, .live)) :
    readDirective state ('#' :: rest) =
      ⟨[⟨.directive, '#' :: Text.lineAt rest⟩], Text.afterLine rest, { state with conditionals }⟩ := by
  simp only [readDirective, (line_sign rest).1, (line_sign rest).2, List.drop_succ_cons, List.drop_zero, htrack]

private theorem readDirective_of_skips (htrack : Directive.track (Directive.ofText (Text.lineAt rest)) state.conditionals =
      (conditionals, .disabled toAlternative))
    (hskips : Skips toAlternative 0 (Text.afterBreak (Text.afterLine rest)) skipped left) :
    readDirective state ('#' :: rest) =
      ⟨⟨.directive, '#' :: Text.lineAt rest⟩ :: (optionalPiece .endOfLine (Text.breakAt (Text.afterLine rest)) ++
        optionalPiece .disabledText skipped), left, { state with conditionals }⟩ := by
  simp only [readDirective, (line_sign rest).1, (line_sign rest).2, List.drop_succ_cons, List.drop_zero, htrack,
    readDisabled_eq hskips]

private theorem atLineStart_of_readTrivia {step : Step} (h : readTrivia state '#' rest = some step) :
    state.atLineStart = true := by
  by_contra hstart
  have hnone : readTrivia state '#' rest = none :=
    readTrivia_eq_none_iff.mpr ⟨by decide, rfl, rfl, fun _ => Bool.eq_false_iff.mpr hstart⟩
  simp [hnone] at h

/-- Where a skip has stopped in front of a line, the lexer takes the directive of the line over. -/
theorem exists_takesOver {outer : List Condition} (hstart : state.atLineStart = true)
    (hends : EndsRun toAlternative (Text.lineAt left))
    (hstack : state.conditionals = (if toAlternative then .fails else .holds) :: outer) :
    ∃ gap line next, TakesOver toAlternative state left gap line next := by
  obtain ⟨gap, more, hleft, hgap, hline, hafter⟩ := exists_sign_of_endsRun hends
  have hmore : Text.lineAt more ++ Text.afterLine left = more := by rw [hafter, Text.lineAt_append_afterLine]
  have hkeyword : keyword? (Text.lineAt left) = (Text.words (Text.lineAt more)).head? := by
    have hblank : (gap ++ '#' :: Text.lineAt more).dropWhile Text.isBlank = '#' :: Text.lineAt more := by
      rw [List.dropWhile_append_of_pos fun c hc => Text.isBlank_of_isInlineBlank (hgap c hc),
        List.dropWhile_cons_of_neg (by decide)]
    simp only [keyword?, hline, hblank]
  obtain ⟨hdirective, hstate⟩ := readDirective_eq state more
  refine ⟨gap, Text.lineAt more, readDirective state ('#' :: more), hline, hgap, ?_, ?_, hdirective, ?_, hkeyword, hends,
    ⟨outer, hstack⟩, fun hendif => ?_, fun helse => ?_⟩
  · rw [hmore]
    conv in Run _ _ _ _ _ => rw [hleft]
    exact run_indent hgap (by simp; decide) state
  · rw [hmore]
    exact readTrivia_sign hstart more
  · rw [hstate]
  · have htrack : Directive.track (Directive.ofText (Text.lineAt more)) state.conditionals = (outer, .live) := by
      rw [Directive.ofText_of_endif hendif, hstack]
      rfl
    rw [readDirective_of_live htrack, hafter, hstack, List.tail_cons]
  · -- Only a skip that may stop at an alternative has stopped at this one.
    have halternative : toAlternative = true := by
      rw [EndsRun, hkeyword, helse] at hends
      simpa using hends
    have htrack : Directive.track (Directive.ofText (Text.lineAt more)) state.conditionals = (.holds :: outer, .live) := by
      rw [Directive.ofText_of_else helse, hstack, halternative]
      rfl
    rw [readDirective_of_live htrack, hafter, hstack, List.tail_cons]

/-- In every run of the lexer the stack is as high as conditionals are open by the directives read. Where a directive
disables lines and the skip stops before the end of the text, the lines that it has skipped are nested, the lexer takes over
the directive behind them, which is the next piece but for blanks, and the innermost conditional there is the one that the
directive in front of the skip belongs to. -/
theorem Run.takesOver (hrun : Run {} text pieces state left) :
    state.conditionals.length = (openings [] 0 pieces).length ∧
      ∀ rest step conditionals toAlternative, left = '#' :: rest → readTrivia state '#' rest = some step →
        Directive.track (Directive.ofText (Text.lineAt rest)) state.conditionals = (conditionals, .disabled toAlternative) →
        step.rest ≠ [] →
        step.state = ⟨true, conditionals⟩ ∧
        (∃ brk lines skipped, step.pieces = ⟨.directive, '#' :: Text.lineAt rest⟩ ::
            (optionalPiece .endOfLine brk ++ optionalPiece .disabledText skipped) ∧
          Text.IsLines lines skipped ∧ NestedFrom 0 lines) ∧
        ∃ gap line next, TakesOver toAlternative step.state step.rest gap line next ∧
          (∃ more, (read text).1 =
            pieces ++ step.pieces ++ optionalPiece .whitespace gap ++ ⟨.directive, '#' :: line⟩ :: more) ∧
          ∃ opener outer, openings [] 0 (pieces ++ [⟨.directive, '#' :: Text.lineAt rest⟩]) = opener :: outer ∧
            openings [] 0 (pieces ++ step.pieces ++ optionalPiece .whitespace gap) = opener :: outer := by
  refine ⟨hrun.length_conditionals, ?_⟩
  rintro rest step conditionals toAlternative rfl hread htrack hne
  have hstart := atLineStart_of_readTrivia hread
  obtain ⟨skipped, left, hskips⟩ := exists_skips toAlternative 0 (Text.afterBreak (Text.afterLine rest))
  have hstep : step = _ := Option.some.inj (hread.symm.trans (readTrivia_sign hstart rest))
  rw [readDirective_of_skips htrack hskips] at hstep
  subst hstep
  obtain ⟨lines, hlines, hnested, hends⟩ := hskips.exists_nested hne
  obtain ⟨stack, rfl⟩ := track_disabled htrack
  obtain ⟨gap, line, next, htakes⟩ := @exists_takesOver { state with conditionals := _ :: stack } left _ _ hstart hends rfl
  have hblanks := (hrun.append (.single hread)).append htakes.blanks
  refine ⟨?_, ⟨_, lines, skipped, rfl, hlines, hnested⟩, gap, line, next, htakes, ?_, ?_⟩
  · rw [← hstart]
  · obtain ⟨behind, hpieces⟩ := List.head?_eq_some_iff.mp htakes.directive
    have hwhole := congrArg Prod.fst (hblanks.append (.single htakes.reads)).readOn_eq
    rw [hpieces] at hwhole
    exact ⟨behind ++ (readOn next.state next.rest).1, hwhole.trans (List.append_assoc _ _ _)⟩
  · have hsame := openings_of_skipped pieces ⟨.directive, '#' :: Text.lineAt rest⟩ (Text.breakAt (Text.afterLine rest))
      skipped gap
    have hlength := hblanks.length_conditionals
    rw [hsame] at hlength
    obtain ⟨opener, outer, hopener⟩ := List.exists_cons_of_length_eq_add_one hlength.symm
    exact ⟨opener, outer, hopener, hsame.trans hopener⟩

/-- The skip passes a conditional of its own, and the alternative behind it belongs to the second directive of the text. -/
theorem Run.takesOver_else :
    let rest := "if false\n# if C\n  #endif\n\t# else\nclass".toList
    let pieces : List Trivia := [⟨.directive, "#if A".toList⟩, ⟨.endOfLine, ['\n']⟩]
    let step := readDirective ⟨true, [.symbolic]⟩ ('#' :: rest)
    Run {} ("#if A\n#".toList ++ rest) pieces ⟨true, [.symbolic]⟩ ('#' :: rest) ∧ step.rest = "\t# else\nclass".toList ∧
      ∃ gap line next, TakesOver true step.state step.rest gap line next ∧
        openings [] 0 (pieces ++ step.pieces ++ optionalPiece .whitespace gap) = [2, 0] := by
  intro rest pieces step
  have hopening : readTrivia {} '#' ("if A\n#".toList ++ rest) =
      some ⟨[⟨.directive, "#if A".toList⟩], '\n' :: '#' :: rest, ⟨true, [.symbolic]⟩⟩ := by rfl
  have hbreak : readTrivia ⟨true, [.symbolic]⟩ '\n' ('#' :: rest) =
      some ⟨[⟨.endOfLine, ['\n']⟩], '#' :: rest, ⟨true, [.symbolic]⟩⟩ := by rfl
  have hrun : Run {} ("#if A\n#".toList ++ rest) pieces ⟨true, [.symbolic]⟩ ('#' :: rest) :=
    .step hopening (.single hbreak)
  have hrest : step.rest = "\t# else\nclass".toList := by decide +kernel
  have htrack : Directive.track (Directive.ofText (Text.lineAt rest)) [.symbolic] =
      ([.fails, .symbolic], .disabled true) := by decide +kernel
  obtain ⟨-, -, gap, line, next, htakes, -, opener, outer, hopener, houter⟩ :=
    hrun.takesOver.2 rest step _ _ rfl (readTrivia_sign rfl rest) htrack (by rw [hrest]; decide)
  have hplaces : openings [] 0 (pieces ++ [⟨.directive, '#' :: Text.lineAt rest⟩]) = [2, 0] := by decide +kernel
  exact ⟨hrun, hrest, gap, line, next, htakes, houter.trans (hopener.symm.trans hplaces)⟩

end

end Lexer
end SourceOrigin
