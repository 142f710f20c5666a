import SourceOrigin.Proofs.Classification
import SourceOrigin.Proofs.Lexer.FirstToken
import SourceOrigin.Proofs.Lexer.Steps

/-! Layout is what the lexer reads of blanks, and it reads nothing else of them. So a unit counts as empty if and only if its
text holds blanks only. -/
namespace SourceOrigin

namespace Lexer
variable {state last : State} {text left : Text} {step : Step} {pieces : List Trivia}

/-- What a step reads is layout if it is blank, and only then. -/
theorem Reads.isLayout_iff (h : Reads state text step) :
    (∀ piece ∈ step.pieces, piece.isLayout = true) ↔ ∀ c ∈ Trivia.texts step.pieces, Text.isBlank c = true := by
  cases h with
  | endOfLine hform hcut =>
    refine iff_of_true (by simp [Trivia.isLayout, Trivia.isOneOf]) fun c hc => ?_
    exact Text.isBlank_of_isBreak (Text.isBreak_of_mem_breakForms hform c (by simpa using hc))
  | whitespace hne hinline hrest =>
    refine iff_of_true (by simp [Trivia.isLayout, Trivia.isOneOf]) fun c hc => ?_
    exact Text.isBlank_of_isInlineBlank (hinline c (by simpa using hc))
  | @lineComment line rest hstart hunbroken hrest =>
    obtain ⟨line, rfl⟩ := hstart
    refine iff_of_false ?_ fun hblank => absurd (hblank '/' (by simp)) (by decide)
    unfold Conditional.commentKind
    split <;> simp [Trivia.isLayout, Trivia.isOneOf]
  | blockComment hbody =>
    refine iff_of_false ?_ fun hblank => absurd (hblank '/' (by simp)) (by decide)
    unfold blockKind
    split <;> simp [Trivia.isLayout, Trivia.isOneOf]
  | directive | disabling =>
    refine iff_of_false ?_ fun hblank => absurd (hblank '#' (by simp)) (by decide)
    simp [Trivia.isLayout, Trivia.isOneOf]

theorem Run.isLayout_iff (h : Run state text pieces last left) :
    (∀ piece ∈ pieces, piece.isLayout = true) ↔ ∀ c ∈ Trivia.texts pieces, Text.isBlank c = true := by
  induction h with
  | stay state text => simp
  | step hread hrun ih =>
    rw [List.forall_mem_append, Trivia.texts_append, List.forall_mem_append, ih,
      (readTrivia_eq_some_iff.mp hread).isLayout_iff]

end Lexer

namespace SourceUnit

private theorem hasGeneratedComment_of_isLayout {unit : SourceUnit}
    (h : ∀ piece ∈ unit.firstTokenOrEnd.leadingTrivia, piece.isLayout = true) (config : Config) :
    hasGeneratedComment config unit.tree = false := by
  have hmarks : hasGeneratedComment config unit.tree = unit.firstTokenOrEnd.leadingTrivia.any config.marks := rfl
  rw [hmarks, List.any_eq_false]
  intro piece hpiece
  rw [Config.marks_eq_false_of_isLayout (h piece hpiece)]
  exact Bool.false_ne_true

private theorem kind_firstTokenOrEnd (text : Text) (path : Option Text) :
    (ofText text path).firstTokenOrEnd.kind = .endOfFile ↔ (ofText text path).firstToken = none := by
  unfold ofText firstTokenOrEnd
  dsimp only
  cases Lexer.read (withoutMark text) with
  | mk trivia token => cases token <;> simp

/-- A unit is empty if its text, without a byte-order mark at its front, holds blanks only; and then it holds no marked
comment, whatever the markers are. -/
theorem isEmptySource_iff_isBlank (text : Text) (path : Option Text) :
    let unit := ofText text path
    (isEmptySource unit.tree = true ↔ ∀ c ∈ withoutMark text, Text.isBlank c = true) ∧
      (isEmptySource unit.tree = true → ∀ config, hasGeneratedComment config unit.tree = false) := by
  intro unit
  have hempty : isEmptySource unit.tree = true ↔
      unit.firstToken = none ∧ ∀ piece ∈ unit.firstTokenOrEnd.leadingTrivia, piece.isLayout = true := by
    have hsource : isEmptySource unit.tree =
        (decide (unit.firstTokenOrEnd.kind = .endOfFile) && (firstSignificantIndex unit.firstTokenOrEnd.leadingTrivia).isNone) := rfl
    rw [hsource, firstSignificantIndex_isNone, Bool.and_eq_true, decide_eq_true_eq, List.all_eq_true, kind_firstTokenOrEnd]
  obtain ⟨last, left, hrun, hstop⟩ := exists_run text path
  have hlayout := hrun.isLayout_iff
  have hcovers := hrun.tiles.covers
  refine ⟨hempty.trans ⟨?_, fun hblank => ?_⟩, fun h => hasGeneratedComment_of_isLayout (hempty.mp h).2⟩
  · rintro ⟨hnone, hpieces⟩
    rw [hnone] at hstop
    obtain rfl := hstop.left_eq_nil
    rw [← hcovers, List.append_nil]
    exact hlayout.mp hpieces
  · refine ⟨?_, hlayout.mpr fun c hc => hblank c (hcovers ▸ List.mem_append_left left hc)⟩
    -- A token would begin with a character that is not blank.
    cases htoken : unit.firstToken with
    | none => rfl
    | some token =>
      rw [htoken] at hstop
      obtain ⟨hne, hsolid⟩ := hstop.head
      obtain ⟨c, left, rfl⟩ := List.exists_cons_of_ne_nil hne
      have hc := hblank c (hcovers ▸ List.mem_append_right _ List.mem_cons_self)
      rw [hsolid c rfl] at hc
      exact absurd hc Bool.false_ne_true

theorem isEmptySource_iff_isBlank_marked :
    let unit := ofText ['\uFEFF', '\r', '\n', '\u3000', '\u2028', '\u001C'] none
    isEmptySource unit.tree = true ∧ hasGeneratedComment { headerMarkers := [[]] } unit.tree = false := by
  intro unit
  have hblank : (withoutMark ['\uFEFF', '\r', '\n', '\u3000', '\u2028', '\u001C']).all Text.isBlank = true := by decide
  have hempty := (isEmptySource_iff_isBlank _ none).1.mpr (List.all_eq_true.mp hblank)
  exact ⟨hempty, (isEmptySource_iff_isBlank _ none).2 hempty _⟩

end SourceUnit

end SourceOrigin
