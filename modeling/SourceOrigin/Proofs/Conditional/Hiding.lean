import SourceOrigin.Proofs.Conditional.TreeTrivia
import SourceOrigin.Proofs.Conditional.Selection

/-! What disabled text hides. A line of a tree is hidden if it is dead and no token comes before it; a line
that the host compiles is dead only where a condition is misread. -/
namespace SourceOrigin

/-- For every character of the trivia, whether it stands in disabled text. -/
def disabledMask (trivia : List Trivia) : List Bool :=
  trivia.flatMap fun piece => piece.text.map fun _ => decide (piece.kind = .disabledText)

@[simp] theorem disabledMask_append (trivia more : List Trivia) :
    disabledMask (trivia ++ more) = disabledMask trivia ++ disabledMask more :=
  List.flatMap_append

theorem length_disabledMask (trivia : List Trivia) :
    (disabledMask trivia).length = (Trivia.texts trivia).length := by
  simp [disabledMask, Trivia.texts]

/-- The character at the position stands in disabled text, so nothing is seen of it. -/
def SourceUnit.Hides (unit : SourceUnit) (position : Nat) : Prop :=
  (disabledMask unit.firstTokenOrEnd.leadingTrivia)[position]? = some true

namespace Conditional
open Lexer (Reading)

theorem disabledMask_optionalPiece (kind : TriviaKind) (text : Text) :
    disabledMask (optionalPiece kind text) = List.replicate text.length (decide (kind = .disabledText)) := by
  unfold optionalPiece
  split
  · next hnil => simp [hnil, disabledMask]
  · simp [disabledMask]

private theorem disabledMask_of_not_disabledText {trivia : List Trivia}
    (h : ∀ piece ∈ trivia, piece.kind ≠ .disabledText) (position : Nat) :
    (disabledMask trivia)[position]? ≠ some true := by
  intro htrue
  have hmem := List.mem_of_getElem? htrue
  obtain ⟨piece, hpiece, hmap⟩ := List.mem_flatMap.mp hmem
  obtain ⟨c, -, hkind⟩ := List.mem_map.mp hmap
  exact h piece hpiece (by simpa using hkind)

private theorem length_disabledMask_read (text : Text) :
    (disabledMask (Lexer.read text).1).length ≤ text.length ∧
      ((Lexer.read text).2 = none → (disabledMask (Lexer.read text).1).length = text.length) := by
  obtain ⟨last, left, hrun, hstop⟩ := Lexer.exists_run {} text
  have hcovers : Trivia.texts (Lexer.read text).1 ++ left = text := hrun.tiles.covers
  have hlength := congrArg List.length hcovers
  rw [List.length_append] at hlength
  rw [length_disabledMask]
  refine ⟨by omega, fun hnone => ?_⟩
  have hstop : Lexer.Stops last left (Lexer.read text).2 := hstop
  rw [hnone] at hstop
  obtain rfl := hstop.left_eq_nil
  simpa using hlength

private theorem disabledMask_glue (pending : Text) (lines : List Text) (rest : List MarkedLines) :
    disabledMask (glue pending (⟨false, lines⟩ :: rest)).1 =
      List.replicate pending.length true ++ (disabledMask (Lexer.read (Text.unlines lines)).1 ++
        if (Lexer.read (Text.unlines lines)).2 = none then disabledMask (glue [] rest).1 else []) := by
  rw [glue]
  cases htoken : (Lexer.read (Text.unlines lines)).2 with
  | none => simp [Reading.andThen, htoken, disabledMask_optionalPiece]
  | some token => simp [Reading.andThen, htoken, disabledMask_optionalPiece]

private theorem hidden_pending {pending : Text} {position : Nat} (h : position < pending.length)
    (marks : List MarkedLines) : (disabledMask (glue pending marks).1)[position]? = some true := by
  induction marks generalizing pending with
  | nil => simp [glue, disabledMask_optionalPiece, h]
  | cons mark marks ih =>
    obtain ⟨dead, lines⟩ := mark
    cases dead with
    | true =>
      rw [glue]
      exact ih (by rw [List.length_append]; omega)
    | false =>
      rw [disabledMask_glue, List.getElem?_append_left (by simpa using h)]
      simp [h]

/-- A character of an item is hidden if the item is dead and no live item before it holds a token. -/
theorem hidden_iff_isDead {before after : List Occurrence} {occurrence : Occurrence}
    (hlive : occurrence.isDead = false →
      ∀ piece ∈ (Lexer.read occurrence.text).1, piece.kind ≠ .disabledText)
    (pending : Text) {position : Nat} (hposition : position < occurrence.text.length) :
    (disabledMask (glue pending ((before ++ occurrence :: after).map (·.mark))).1)[
        pending.length + (textOf before).length + position]? = some true ↔
      (∀ earlier ∈ before, earlier.isDead = false → (Lexer.read earlier.text).2 = none) ∧
        occurrence.isDead = true := by
  obtain ⟨hle, heq⟩ := length_disabledMask_read occurrence.text
  -- Dead items before the occurrence join the pending text, live ones drop out of the mask.
  induction before generalizing pending with
  | nil =>
    rw [List.nil_append, List.map_cons, Occurrence.mark]
    cases hdead : occurrence.isDead with
    | true =>
      rw [glue, ← Occurrence.text]
      exact iff_of_true (hidden_pending (by simpa using hposition) _) ⟨by simp, rfl⟩
    | false =>
      refine iff_of_false ?_ (by simp)
      have hmask := disabledMask_of_not_disabledText (hlive hdead) position
      rw [disabledMask_glue, ← Occurrence.text, textOf_nil, List.length_nil, Nat.add_zero,
        List.getElem?_append_right (by simp), List.length_replicate, Nat.add_sub_cancel_left]
      by_cases hnone : (Lexer.read occurrence.text).2 = none
      · rwa [List.getElem?_append_left (by rw [heq hnone]; exact hposition)]
      · rwa [if_neg hnone, List.append_nil]
  | cons earlier before ih =>
    obtain ⟨hshort, hlength⟩ := length_disabledMask_read earlier.text
    rw [List.cons_append, List.map_cons, Occurrence.mark, List.forall_mem_cons, textOf_cons, List.length_append]
    cases hdead : earlier.isDead with
    | true =>
      have hnext := ih (pending ++ earlier.text)
      rw [glue, ← Occurrence.text]
      simpa [Nat.add_assoc] using hnext
    | false =>
      rw [disabledMask_glue, ← Occurrence.text]
      by_cases hnone : (Lexer.read earlier.text).2 = none
      · have hnext := ih []
        rw [if_pos hnone, List.getElem?_append_right (by rw [List.length_replicate]; omega),
          List.getElem?_append_right (by rw [List.length_replicate, hlength hnone]; omega)]
        have hindex : pending.length + (earlier.text.length + (textOf before).length) + position -
            (List.replicate pending.length true).length - (disabledMask (Lexer.read earlier.text).1).length =
            ([] : Text).length + (textOf before).length + position := by
          rw [List.length_replicate, hlength hnone, List.length_nil]
          omega
        rw [hindex, hnext]
        simp [hnone]
      · refine iff_of_false ?_ (by simp [hnone])
        rw [if_neg hnone, List.append_nil, List.getElem?_eq_none]
        · simp
        · rw [List.length_append, List.length_replicate]
          omega

/-- No live item of a tree gives disabled text when it is read for itself. -/
theorem Legible.not_disabledText {tree : Tree} (h : Legible tree.occurrences) :
    ∀ occurrence ∈ tree.occurrences, occurrence.isDead = false →
      ∀ piece ∈ (Lexer.read occurrence.text).1, piece.kind ≠ .disabledText := by
  intro occurrence hmem hlive
  cases hdirective : occurrence.isDirective with
  | true =>
    rw [tree.read_directive occurrence hmem hdirective]
    intro piece hpiece hkind
    simpa [hkind] using kind_of_mem_linesTrivia hpiece
  | false =>
    obtain ⟨hlines, hclosed⟩ := h occurrence hmem hdirective
    exact Lexer.read_not_disabledText
      (.start fun line hline => ⟨tree.unbroken_occurrence occurrence hmem line hline, hlines line hline⟩)
      (hclosed hlive)

end Conditional

/-- The text of a tree hides a character of an item if the item is dead and no live item before it holds a
token. A byte-order mark may stand in front of the text. -/
theorem SourceUnit.hides_iff_isDead {tree : Conditional.Tree} (hlegible : Conditional.Legible tree.occurrences)
    {text : Text} (htext : withoutMark text = tree.render) (path : Option Text)
    {before after : List Conditional.Occurrence} {occurrence : Conditional.Occurrence}
    (hoccurrences : tree.occurrences = before ++ occurrence :: after) {position : Nat}
    (hposition : position < occurrence.text.length) :
    (SourceUnit.ofText text path).Hides ((Conditional.textOf before).length + position) ↔
      (∀ earlier ∈ before, earlier.isDead = false → (Lexer.read earlier.text).2 = none) ∧
        occurrence.isDead = true := by
  have htrivia : (SourceUnit.ofText text path).firstTokenOrEnd.leadingTrivia =
      (Conditional.glue [] ((before ++ occurrence :: after).map (·.mark))).1 := by
    rw [← hoccurrences, ← tree.read_render hlegible, ← htext]
    unfold SourceUnit.ofText
    dsimp only
    cases hread : Lexer.read (withoutMark text) with
    | mk trivia token => cases token <;> rfl
  have hlive := hlegible.not_disabledText occurrence (by rw [hoccurrences]; simp)
  rw [SourceUnit.Hides, htrivia, ← Nat.zero_add (Conditional.textOf before).length]
  exact Conditional.hidden_iff_isDead hlive [] hposition

/-- What the host compiles is hidden where a condition is misread, and only there: a character of a selected
item is hidden if no live item before it holds a token, and up to one of the branches around the item a guard
is misread behind guards that read as failing. -/
theorem SourceUnit.hides_iff_isMisread {tree : Conditional.Tree}
    (hlegible : Conditional.Legible tree.occurrences) {text : Text} (htext : withoutMark text = tree.render)
    (path : Option Text) (defined : Text → Bool) {before after : List Conditional.Occurrence}
    {occurrence : Conditional.Occurrence} (hoccurrences : tree.occurrences = before ++ occurrence :: after)
    (hselected : occurrence.IsSelected defined) {position : Nat} (hposition : position < occurrence.text.length) :
    (SourceUnit.ofText text path).Hides ((Conditional.textOf before).length + position) ↔
      (∀ earlier ∈ before, earlier.isDead = false → (Lexer.read earlier.text).2 = none) ∧
        ∃ place ∈ occurrence.places, place.IsMisread defined := by
  have hdead : occurrence.isDead = true ↔ ∃ place ∈ occurrence.places, place.IsMisread defined := by
    rw [Conditional.Occurrence.isDead, List.any_eq_true]
    refine exists_congr fun place => and_congr_right fun hmem => ?_
    exact Conditional.Place.isDead_iff_isMisread (hselected place hmem)
  rw [SourceUnit.hides_iff_isDead hlegible htext path hoccurrences hposition, hdead]

/-- Every character of a comment that the host compiles is hidden, in a text with a mark in front. -/
theorem SourceUnit.hides_commentFallback :
    let guards : List Conditional.Guard := [.condition " true && X".toList, .otherwise]
    let comment : Conditional.Occurrence := ⟨[.inside [.condition " HOST".toList] 0, .inside guards 1], false,
      ["/* <auto-generated>".toList, "*/".toList]⟩
    Conditional.commentFallback.Regular ∧ comment ∈ Conditional.commentFallback.occurrences ∧
      comment.IsSelected (· = "HOST".toList) ∧
      ∀ position < comment.text.length,
        (SourceUnit.ofText (byteOrderMark :: Conditional.commentFallback.render)).Hides (38 + position) := by
  intro guards comment
  have hregular : Conditional.commentFallback.Regular := by decide
  have hoccurrences : Conditional.commentFallback.occurrences =
      Conditional.commentFallback.occurrences.take 4 ++ comment :: Conditional.commentFallback.occurrences.drop 5 := rfl
  have htext : withoutMark (byteOrderMark :: Conditional.commentFallback.render) =
      Conditional.commentFallback.render := by rw [withoutMark, if_pos rfl]
  have hselected : comment.IsSelected (· = "HOST".toList) := by decide
  refine ⟨hregular, by decide, hselected, fun position hposition => ?_⟩
  refine (SourceUnit.hides_iff_isMisread hregular.legible htext none (· = "HOST".toList) hoccurrences
    hselected hposition).mpr ⟨hregular.read_before hoccurrences, .inside guards 1, by decide, ?_⟩
  exact ⟨0, by decide, ⟨_, rfl, .inr ⟨by decide, by decide⟩⟩, by simp⟩

/-- Nothing that the host compiles is hidden where the conditions known by their first word are literals. -/
theorem SourceUnit.not_hides_of_isLiteral {tree : Conditional.Tree}
    (hlegible : Conditional.Legible tree.occurrences) {text : Text} (htext : withoutMark text = tree.render)
    (path : Option Text) {defined : Text → Bool} {before after : List Conditional.Occurrence}
    {occurrence : Conditional.Occurrence} (hoccurrences : tree.occurrences = before ++ occurrence :: after)
    (hselected : occurrence.IsSelected defined)
    (hliteral : ∀ place ∈ occurrence.places, ∀ guard ∈ place.guards, guard.reading ≠ .symbolic → guard.IsLiteral)
    {position : Nat} (hposition : position < occurrence.text.length) :
    ¬ (SourceUnit.ofText text path).Hides ((Conditional.textOf before).length + position) := by
  rw [SourceUnit.hides_iff_isDead hlegible htext path hoccurrences hposition]
  rintro ⟨-, hdead⟩
  obtain ⟨place, hmem, hdead⟩ := List.any_eq_true.mp hdead
  have hmisread := (Conditional.Place.isDead_iff_isMisread (hselected place hmem)).mp hdead
  exact Conditional.Place.not_isMisread (hliteral place hmem) defined hmisread

/-- A line that the host compiles can be hidden. -/
theorem SourceUnit.exists_hides_isSelected :
    ¬ ∀ (tree : Conditional.Tree) (defined : Text → Bool) (before after : List Conditional.Occurrence)
      (occurrence : Conditional.Occurrence), tree.occurrences = before ++ occurrence :: after →
      occurrence.IsSelected defined → ∀ position < occurrence.text.length,
        ¬ (SourceUnit.ofText tree.render).Hides ((Conditional.textOf before).length + position) := by
  intro h
  have hregular : Conditional.headerGroup.Regular := by decide
  have hoccurrences : Conditional.headerGroup.occurrences = [⟨[], true, ["#if false || X".toList]⟩] ++
      ⟨[.inside [.condition " false || X".toList] 0], false, ["// <auto-generated/>".toList]⟩ ::
        [⟨[], true, ["#endif".toList]⟩] := rfl
  refine h Conditional.headerGroup (· = "X".toList) _ _ _ hoccurrences (by decide) 0 (by decide) ?_
  refine (SourceUnit.hides_iff_isDead hregular.legible hregular.withoutMark_render none hoccurrences
    (by decide)).mpr ⟨hregular.read_before hoccurrences, by decide⟩

end SourceOrigin
