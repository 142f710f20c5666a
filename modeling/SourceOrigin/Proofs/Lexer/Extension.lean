import SourceOrigin.Proofs.Lexer.Steps

/-! Texts that end behind a line break, and what follows them. The lexer goes on there with whatever follows, unless it has
stopped inside the disabled run of the last directive; then it goes on with more disabled lines. -/
namespace SourceOrigin.Lexer
variable {state middle last : State} {text between left : Text} {pieces : List Trivia}

/-- A run that leaves a whole line is not influenced by what is added behind the text. -/
theorem Run.append_text (h : Run state text pieces last left) (hline : ∃ c ∈ left, Text.isBreak c = true) (more : Text) :
    Run state (text ++ more) pieces last (left ++ more) := by
  induction h with
  | stay state text => exact .stay state _
  | @step state last first rest left step pieces hread hrun ih =>
    obtain ⟨c, hc, hbreak⟩ := hline
    have hcovers := (tiles_readTrivia hread).covers
    have hbetween : ∃ c ∈ step.rest, Text.isBreak c = true := by
      refine ⟨c, ?_, hbreak⟩
      rw [← hrun.tiles.covers]
      exact List.mem_append_right _ hc
    have hne : step.rest ≠ [] := by
      rintro hnil
      simp [hnil] at hbetween
    have hresembles : Resembles step.state step.rest (step.rest ++ more) := by
      have hhead : (step.rest ++ more).head? = step.rest.head? := List.head?_append_of_ne_nil _ hne
      exact ⟨hne, .inr hhead, fun _ _ => ⟨hhead, Text.lineAt_append_of_mem hbetween more⟩⟩
    obtain ⟨rest', htext, hread'⟩ := readTrivia_append hread hresembles
    rw [← hcovers, List.append_assoc, htext]
    have hnext := Run.step hread' (ih ⟨c, hc, hbreak⟩)
    exact hnext

private theorem Run.exists_last (h : Run state text pieces last []) (hne : text ≠ []) : ∃ middle between front step,
    Run state text front middle between ∧ Reads middle between step ∧ step.rest = [] ∧ step.state = last ∧
      pieces = front ++ step.pieces := by
  generalize hleft : ([] : Text) = left at h
  induction h with
  | stay state text => exact absurd hleft.symm hne
  | @step state last first rest left step pieces hread hrun ih =>
    subst hleft
    by_cases hrest : step.rest = []
    · rw [hrest] at hrun
      cases hrun
      exact ⟨state, first :: rest, [], step, .stay _ _, readTrivia_eq_some_iff.mp hread, hrest, rfl, by simp⟩
    · obtain ⟨middle, between, front, final, hfront, hreads, hnil, hstate, rfl⟩ := ih hrest rfl
      exact ⟨middle, between, step.pieces ++ front, final, .step hread hfront, hreads, hnil, hstate,
        (List.append_assoc _ _ _).symm⟩

/-- Behind a directive that disables lines the innermost conditional is known to have no live branch yet, if the next one
may be live, and to have one otherwise. -/
theorem track_disabled {directive : Directive} {stack conditionals : List Condition} {toAlternative : Bool}
    (h : Directive.track directive stack = (conditionals, .disabled toAlternative)) :
    ∃ outer, conditionals = (if toAlternative then .fails else .holds) :: outer := by
  have hfails : ∀ condition, Directive.Continuation.ofCondition condition = .disabled toAlternative →
      condition = .fails ∧ toAlternative = true := by
    intro condition hcondition
    cases condition <;> simp_all [Directive.Continuation.ofCondition]
  unfold Directive.track at h
  split at h
  · obtain ⟨rfl, hcondition⟩ := Prod.mk.inj h
    obtain ⟨rfl, rfl⟩ := hfails _ hcondition
    exact ⟨_, rfl⟩
  · obtain ⟨rfl, hlive⟩ := Prod.mk.inj h
    obtain rfl := Directive.Continuation.disabled.inj hlive
    exact ⟨_, rfl⟩
  · obtain ⟨rfl, hcondition⟩ := Prod.mk.inj h
    obtain ⟨rfl, rfl⟩ := hfails _ hcondition
    exact ⟨_, rfl⟩
  · simp at h
  · simp at h

private theorem track_disabled_ne_nil {directive : Directive} {stack conditionals : List Condition} {toAlternative : Bool}
    (h : Directive.track directive stack = (conditionals, .disabled toAlternative)) : conditionals ≠ [] := by
  obtain ⟨outer, rfl⟩ := track_disabled h
  exact List.cons_ne_nil _ _

/-- How the lexer goes on behind a text that it reads as the given pieces: with whatever follows, or, inside of a
conditional, with the lines that are skipped behind the last directive. -/
inductive GoesOn (state : State) (text : Text) (pieces : List Trivia) (last : State) : Prop where
  | live : (∀ more, Text.CleanCut text more → Run state (text ++ more) pieces last more) → GoesOn state text pieces last
  | pending (toAlternative : Bool) : last.conditionals ≠ [] →
      (∀ more skipped left, Text.CleanCut text more → Skips toAlternative 0 more skipped left →
        Run state (text ++ more) (pieces ++ Conditional.optionalPiece .disabledText skipped) last left) →
      GoesOn state text pieces last

theorem GoesOn.after {front : List Trivia} (hrun : Run state text front middle between)
    (hline : ∃ c ∈ between, Text.isBreak c = true) (h : GoesOn middle between pieces last) :
    GoesOn state text (front ++ pieces) last := by
  have hcut : ∀ more, Text.CleanCut text more → Text.CleanCut between more := by
    intro more hmore
    rw [← hrun.tiles.covers] at hmore
    exact hmore.of_append_left
  cases h with
  | live h => exact .live fun more hmore => (hrun.append_text hline more).append (h more (hcut more hmore))
  | pending toAlternative hopen h =>
    refine .pending toAlternative hopen fun more skipped left hmore hskips => ?_
    rw [List.append_assoc]
    exact (hrun.append_text hline more).append (h more skipped left (hcut more hmore) hskips)

/-- A step that ends a text with a line break leaves the lexer at the start of a line, if need be among disabled lines. -/
theorem Reads.goesOn {step : Step} (h : Reads state text step) (hrest : step.rest = [])
    (hend : ∀ piece ∈ step.pieces.getLast?, piece.kind = .endOfLine) :
    step.state.atLineStart = true ∧ (∃ c ∈ text, Text.isBreak c = true) ∧ GoesOn state text step.pieces step.state := by
  cases h with
  | @endOfLine brk rest hform hcut =>
    obtain rfl : rest = [] := hrest
    rw [List.append_nil]
    obtain ⟨c, hc⟩ := List.exists_mem_of_ne_nil _ (Text.ne_nil_of_mem_breakForms hform)
    exact ⟨rfl, ⟨c, hc, Text.isBreak_of_mem_breakForms hform c hc⟩, .live fun more hmore => (Reads.endOfLine hform hmore).run⟩
  | whitespace | directive => simp at hend
  | lineComment =>
    unfold Conditional.commentKind at hend
    split at hend <;> simp at hend
  | blockComment =>
    unfold blockKind at hend
    split at hend <;> simp at hend
  | @disabling line rest skipped left conditionals toAlternative hstart hunbroken hhead htrack hskips =>
    obtain rfl : left = [] := hrest
    rcases skips_cases hhead hskips with ⟨rfl, rfl, -⟩ | ⟨hform, -⟩
    · simp [Conditional.optionalPiece, Text.breakAt] at hend
    have hbreak := Text.ne_nil_of_mem_breakForms hform
    obtain rfl : skipped = [] := by
      by_contra hskipped
      have hkind := hend ⟨.disabledText, skipped⟩ (by simp [Conditional.optionalPiece, hbreak, hskipped])
      simp at hkind
    have hwhole : Text.breakAt rest = rest := by
      have hcovered := Text.breakAt_append_afterBreak rest
      rwa [← hskips.append_eq, List.append_nil, List.append_nil] at hcovered
    rw [hwhole] at hform hbreak ⊢
    obtain ⟨c, hc⟩ := List.exists_mem_of_ne_nil _ hbreak
    refine ⟨hstart, ⟨c, List.mem_append_right _ hc, Text.isBreak_of_mem_breakForms hform c hc⟩, ?_⟩
    refine .pending toAlternative (track_disabled_ne_nil htrack) fun more skipped' left' hmore hskips' => ?_
    obtain ⟨hbreakAt, hafterBreak⟩ := Text.breakAt_form hform hmore.of_append_left
    have hhead' : ∀ c ∈ (rest ++ more).head?, Text.isBreak c = true := by
      rwa [List.head?_append_of_ne_nil _ hbreak]
    have hrun := (Reads.disabling hstart hunbroken hhead' htrack (hafterBreak ▸ hskips')).run
    have hnone : Conditional.optionalPiece .disabledText ([] : Text) = [] := rfl
    rwa [hbreakAt, ← List.append_assoc, ← List.append_nil (Conditional.optionalPiece .endOfLine rest), ← hnone] at hrun

/-- Behind a line break that ends a text the lexer goes on at the start of a line. -/
theorem Run.goesOn (h : Run state text pieces last []) (hend : ∀ piece ∈ pieces.getLast?, piece.kind = .endOfLine)
    (hstart : state.atLineStart = true) : last.atLineStart = true ∧ GoesOn state text pieces last := by
  by_cases hnil : text = []
  · subst hnil
    cases h
    exact ⟨hstart, .live fun more _ => .stay state more⟩
  obtain ⟨middle, between, front, step, hfront, hreads, hrest, rfl, rfl⟩ := h.exists_last hnil
  have hne : step.pieces ≠ [] := by
    intro hnone
    obtain ⟨first, rest, hbetween, -⟩ := hreads.readTrivia_eq
    have hcovers := hreads.run.tiles.covers
    simp [hnone, hrest, hbetween] at hcovers
  rw [List.getLast?_append_of_ne_nil _ hne] at hend
  obtain ⟨hstart, hline, hgoesOn⟩ := hreads.goesOn hrest hend
  exact ⟨hstart, hgoesOn.after hfront hline⟩

end SourceOrigin.Lexer
