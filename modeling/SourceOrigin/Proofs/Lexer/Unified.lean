import SourceOrigin.Proofs.Lexer.FirstToken
import SourceOrigin.Proofs.Lexer.Steps
import SourceOrigin.Proofs.Text.Unified

/-! Lexing commutes with turning carriage returns into line feeds. Every step of the lexer has its counterpart on the
unified text, which reads the unified pieces and leaves the unified rest in the same state. -/
namespace SourceOrigin

def Trivia.unified (piece : Trivia) : Trivia := { piece with text := Text.unifyBreaks piece.text }

private theorem Trivia.unified_of_unbroken {piece : Trivia} (h : piece.text.Unbroken) : piece.unified = piece := by
  rw [Trivia.unified, h.unifyBreaks_eq]

theorem Skips.unified {toAlternative : Bool} {depth : Nat} {text skipped left : Text}
    (h : Skips toAlternative depth text skipped left) :
    Skips toAlternative depth (Text.unifyBreaks text) (Text.unifyBreaks skipped) (Text.unifyBreaks left) := by
  induction h with
  | done depth => exact .done depth
  | stops hne hstop =>
    refine .stops (mt Text.unifyBreaks_eq_nil_iff.mp hne) ?_
    rwa [(Text.lineAt_unifyBreaks _).1]
  | @line depth next text skipped left hne hnext hskips ih =>
    have hline := Text.unbroken_lineAt text
    obtain ⟨hlineAt, hafterLine⟩ := Text.lineAt_unifyBreaks text
    obtain ⟨hbreakAt, hafterBreak⟩ := Text.breakAt_unifyBreaks (Text.afterLine text)
    have hcut : Text.CleanCut (Text.breakAt (Text.afterLine text)) skipped := by
      by_cases hbreak : Text.breakAt (Text.afterLine text) = []
      · exact hbreak ▸ Text.cleanCut_nil_left skipped
      · have hclean := (Text.breakAt_mem_breakForms hbreak).2
        rw [← hskips.append_eq] at hclean
        exact hclean.of_append_right
    have hskips' : Skips toAlternative depth (Text.unifyBreaks text) _ (Text.unifyBreaks left) :=
      .line (mt Text.unifyBreaks_eq_nil_iff.mp hne) (by rwa [hlineAt]) (by rwa [hafterLine, hafterBreak])
    rwa [hlineAt, hafterLine, hbreakAt, ← Text.unifyBreaks_append hcut, ← hline.unifyBreaks_append] at hskips'

namespace Lexer
variable {state last : State} {text body left : Text} {step : Step} {pieces : List Trivia} {token : Option Text}

theorem Closes.unified (h : Closes body) : Closes (Text.unifyBreaks body) := by
  have hcloser : Text.FeedFree "*/".toList := by decide
  obtain ⟨⟨front, rfl⟩, hfirst⟩ := h
  constructor
  · rw [Text.unifyBreaks_append (by simpa using Text.cleanCut_part hcloser (by simp) front []),
      Text.unifyBreaks_of_not_mem hcloser.1]
    exact List.suffix_append _ _
  · intro before behind hbody
    obtain ⟨before', behind', hbody', -, rfl⟩ := Text.exists_of_unifyBreaks_eq_infix hcloser hbody
    rw [hfirst before' behind' hbody', Text.unifyBreaks_nil]

private theorem blockKind_unifyBreaks (comment : Text) : blockKind (Text.unifyBreaks comment) = blockKind comment := by
  have hdoc := @Text.prefix_unifyBreaks_iff comment _ (show Text.FeedFree "/**".toList by decide)
  have hplain := @Text.prefix_unifyBreaks_iff comment _ (show Text.FeedFree "/**/".toList by decide)
  simp only [blockKind, hdoc, hplain]

private theorem optionalPiece_unified (kind : TriviaKind) (text : Text) :
    (Conditional.optionalPiece kind text).map Trivia.unified = Conditional.optionalPiece kind (Text.unifyBreaks text) := by
  by_cases hnil : text = []
  · rw [Conditional.optionalPiece, Conditional.optionalPiece, if_pos hnil, if_pos (Text.unifyBreaks_eq_nil_iff.mpr hnil)]
    rfl
  · rw [Conditional.optionalPiece, Conditional.optionalPiece, if_neg hnil,
      if_neg (mt Text.unifyBreaks_eq_nil_iff.mp hnil)]
    rfl

def Step.unified (step : Step) : Step :=
  ⟨step.pieces.map Trivia.unified, Text.unifyBreaks step.rest, step.state⟩

theorem Reads.unified (h : Reads state text step) : Reads state (Text.unifyBreaks text) step.unified := by
  cases h with
  | endOfLine hform hcut =>
    rw [Text.unifyBreaks_append hcut]
    exact .endOfLine (Text.unifyBreaks_mem_breakForms hform) (Text.cleanCut_unifyBreaks _ _)
  | @whitespace gap rest hne hinline hrest =>
    have hpiece := Trivia.unified_of_unbroken (show Text.Unbroken (Trivia.text ⟨.whitespace, gap⟩) from hinline.unbroken)
    rw [hinline.unbroken.unifyBreaks_append, Step.unified, List.map_singleton, hpiece]
    exact .whitespace hne hinline (Text.forall_head?_unifyBreaks (by decide) hrest)
  | @lineComment line rest hstart hunbroken hrest =>
    have hpiece := Trivia.unified_of_unbroken (show Text.Unbroken (Trivia.text ⟨Conditional.commentKind line, line⟩) from hunbroken)
    rw [hunbroken.unifyBreaks_append, Step.unified, List.map_singleton, hpiece]
    exact .lineComment hstart hunbroken (Text.forall_head?_unifyBreaks (by decide) hrest)
  | @blockComment body rest hbody =>
    have hopener : Text.FeedFree "/*".toList := by decide
    have hcloser : Text.FeedFree "*/".toList := by decide
    have hbody' : Closes (Text.unifyBreaks body) ∨
        ¬ "*/".toList <:+: Text.unifyBreaks body ∧ Text.unifyBreaks rest = [] := by
      rw [Text.infix_unifyBreaks_iff hcloser, Text.unifyBreaks_eq_nil_iff]
      exact hbody.imp_left Closes.unified
    have hreads := @Reads.blockComment state _ _ hbody'
    rw [← Text.unifyBreaks_part_append hopener, blockKind_unifyBreaks] at hreads
    rw [List.append_assoc, Text.unifyBreaks_part_append hopener, Text.unifyBreaks_append (cleanCut_of_closes hbody),
      ← List.append_assoc,
      ← Text.unifyBreaks_part_append hopener]
    exact hreads
  | @directive line rest conditionals hstart hunbroken hrest htrack =>
    have hpiece := Trivia.unified_of_unbroken (show Text.Unbroken (Trivia.text ⟨.directive, '#' :: line⟩) from hunbroken)
    rw [hunbroken.unifyBreaks_append, Step.unified, List.map_singleton, hpiece]
    exact .directive hstart hunbroken (Text.forall_head?_unifyBreaks (by decide) hrest) htrack
  | @disabling line rest skipped left conditionals toAlternative hstart hunbroken hrest htrack hskips =>
    have hpiece := Trivia.unified_of_unbroken (show Text.Unbroken (Trivia.text ⟨.directive, '#' :: line⟩) from hunbroken)
    obtain ⟨hbreakAt, hafterBreak⟩ := Text.breakAt_unifyBreaks rest
    rw [hunbroken.unifyBreaks_append, Step.unified, List.map_cons, hpiece, List.map_append, optionalPiece_unified,
      optionalPiece_unified, ← hbreakAt]
    exact .disabling hstart hunbroken (Text.forall_head?_unifyBreaks (by decide) hrest) htrack
      (hafterBreak ▸ hskips.unified)

theorem Run.unified (h : Run state text pieces last left) :
    Run state (Text.unifyBreaks text) (pieces.map Trivia.unified) last (Text.unifyBreaks left) := by
  induction h with
  | stay state text => exact .stay state _
  | step hread _ ih =>
    obtain ⟨first, rest, htext, hread'⟩ := (readTrivia_eq_some_iff.mp hread).unified.readTrivia_eq
    rw [htext, List.map_append]
    exact .step hread' ih

theorem Stops.unified (h : Stops last left token) : Stops last (Text.unifyBreaks left) token := by
  cases token with
  | none =>
    obtain rfl := h.left_eq_nil
    exact h
  | some token =>
    obtain ⟨-, hsolid, behind, rfl, hbehind⟩ := h.token
    have hunbroken : Text.Unbroken token := by
      intro c hc
      exact Text.isBreak_of_not_isBlank (hsolid c hc)
    rw [hunbroken.unifyBreaks_append]
    exact h.replace (Text.forall_head?_unifyBreaks (by decide) hbehind)

/-- The lexer reads the unified pieces of the unified text, and the same token. -/
theorem read_unifyBreaks (text : Text) :
    read (Text.unifyBreaks text) = ((read text).1.map Trivia.unified, (read text).2) := by
  obtain ⟨last, left, hrun, hstop⟩ := exists_run {} text
  exact hrun.unified.readOn_of_stops hstop.unified

end Lexer

end SourceOrigin
