import SourceOrigin.Proofs.Lexer.Extension

/-! Texts that are read one after the other. Behind a text of trivia only that ends with its line and leaves no
conditional open, the lexer is where it started, so what follows is read as if it stood alone. -/
namespace SourceOrigin.Lexer
variable {state last : State} {front behind text left : Text} {pieces trivia trivia' : List Trivia}

/-- The conditionals that are open behind the trivia. Of these only the directives open and close any. -/
def openBehind (stack : List Condition) (pieces : List Trivia) : List Condition :=
  pieces.foldl (fun stack piece =>
    if piece.kind = .directive then (Directive.track (Directive.ofText (piece.text.drop 1)) stack).1 else stack) stack

private theorem openBehind_append (stack : List Condition) (pieces more : List Trivia) :
    openBehind stack (pieces ++ more) = openBehind (openBehind stack pieces) more :=
  List.foldl_append

private theorem openBehind_of_not_directive (stack : List Condition) (h : ∀ piece ∈ pieces, piece.kind ≠ .directive) :
    openBehind stack pieces = stack := by
  induction pieces with
  | nil => rfl
  | cons piece pieces ih =>
    rw [openBehind, List.foldl_cons, if_neg (h piece List.mem_cons_self)]
    exact ih fun piece hpiece => h piece (List.mem_cons_of_mem _ hpiece)

theorem Reads.conditionals_eq {step : Step} (h : Reads state text step) :
    step.state.conditionals = openBehind state.conditionals step.pieces := by
  cases h with
  | endOfLine | whitespace => rfl
  | @lineComment line rest hstart hunbroken hrest =>
    refine (openBehind_of_not_directive _ ?_).symm
    unfold Conditional.commentKind
    split <;> simp
  | blockComment hbody =>
    refine (openBehind_of_not_directive _ ?_).symm
    unfold blockKind
    split <;> simp
  | directive hstart hunbroken hrest htrack => simp [openBehind, htrack]
  | @disabling line rest skipped left conditionals toAlternative hstart hunbroken hhead htrack hskips =>
    have hlayout : ∀ piece ∈ Conditional.optionalPiece .endOfLine (Text.breakAt rest) ++
        Conditional.optionalPiece .disabledText skipped, piece.kind ≠ .directive := by
      unfold Conditional.optionalPiece
      split <;> split <;> simp
    rw [← List.singleton_append, openBehind_append, openBehind_of_not_directive _ hlayout]
    simp [openBehind, htrack]

/-- The stack of open conditionals is told by the trivia. -/
theorem Run.conditionals_eq (h : Run state text pieces last left) :
    last.conditionals = openBehind state.conditionals pieces := by
  induction h with
  | stay state text => rfl
  | step hread hrun ih => rw [ih, (readTrivia_eq_some_iff.mp hread).conditionals_eq, openBehind_append]

/-- Outside of every conditional nothing is left pending behind the end of a line. -/
theorem Run.extend (h : Run state text pieces last []) (hend : ∀ piece ∈ pieces.getLast?, piece.kind = .endOfLine)
    (hstart : state.atLineStart = true) (hclosed : last.conditionals = []) {more : Text} (hcut : Text.CleanCut text more) :
    Run state (text ++ more) pieces {} more := by
  obtain ⟨hline, hgoesOn⟩ := h.goesOn hend hstart
  have hinitial : last = {} := by
    cases last
    simp_all
  cases hgoesOn with
  | live h => exact hinitial ▸ h more hcut
  | pending toAlternative hopen h => exact absurd hclosed hopen

/-- Reading is compositional where lines and conditionals are closed: the trivia of the front come first, then the trivia
and the token of what stands behind it. -/
theorem read_append (hfront : Run {} front trivia last [])
    (hend : ∀ piece ∈ trivia.getLast?, piece.kind = .endOfLine) (hclosed : last.conditionals = [])
    (hcut : ¬ (front.getLast? = some '\r' ∧ behind.head? = some '\n')) :
    read front = (trivia, none) ∧ read (front ++ behind) = (trivia ++ (read behind).1, (read behind).2) := by
  have hextend := hfront.extend hend rfl hclosed (not_and.mp hcut)
  exact ⟨hfront.readOn_of_stops rfl, hextend.readOn_eq⟩

/-- A front with a nested group and a disabled branch, and directives behind it that belong to no conditional. -/
theorem read_append_strayDirectives :
    let front := "#if a\n#if false\nclass A\n#else\n// b\n#endif\n#endif\r".toList
    let behind := "#else\n#endif\r\nclass C".toList
    ∃ trivia last, Run {} front trivia last [] ∧ (∀ piece ∈ trivia.getLast?, piece.kind = .endOfLine) ∧
      last.conditionals = [] ∧ ¬ (front.getLast? = some '\r' ∧ behind.head? = some '\n') ∧
      read front = (trivia, none) ∧ read (front ++ behind) = (trivia ++ (read behind).1, (read behind).2) := by
  intro front behind
  obtain ⟨last, left, hrun, hstop⟩ := exists_run {} front
  have hnone : (readOn {} front).2 = none := by decide +kernel
  rw [hnone] at hstop
  obtain rfl := hstop.left_eq_nil
  have hend : ∀ piece ∈ (readOn {} front).1.getLast?, piece.kind = .endOfLine := by
    have hlast : (readOn {} front).1.getLast? = some ⟨.endOfLine, ['\r']⟩ := by decide +kernel
    rw [hlast]
    rintro piece ⟨⟩
    rfl
  have hclosed : last.conditionals = [] := by
    rw [hrun.conditionals_eq]
    decide +kernel
  have hcut : ¬ (front.getLast? = some '\r' ∧ behind.head? = some '\n') := by decide
  exact ⟨_, last, hrun, hend, hclosed, hcut, read_append hrun hend hclosed hcut⟩

end SourceOrigin.Lexer
