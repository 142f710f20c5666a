import Mathlib.Data.Char
import Mathlib.Data.List.Lex
import Mathlib.Data.List.Sort
import SourceOrigin.Text.Basic

/-! Sorted lists. Sorting by the order of a key gives a list in this order. The order of texts is the lexicographic order
of lists, so a sorted list of texts is the only sorted arrangement of its texts. -/
namespace SourceOrigin

/-! ### Sorting -/

section Sorting
variable {α β : Type} {le : α → α → Bool}

private theorem insertBy_eq_orderedInsert (a : α) (list : List α) :
    insertBy le a list = list.orderedInsert (fun a b => le a b = true) a := by
  induction list with
  | nil => rfl
  | cons b rest ih => simp only [insertBy, List.orderedInsert_cons, ih]

private theorem sortBy_eq_insertionSort (list : List α) :
    sortBy le list = list.insertionSort (fun a b => le a b = true) := by
  induction list with
  | nil => rfl
  | cons a rest ih => rw [sortBy, ih, insertBy_eq_orderedInsert, List.insertionSort_cons]

/-- A list that is sorted by the order of a key is in this order. -/
theorem sortBy_pairwise_key [LinearOrder β] (key : α → β) (hle : ∀ a b, le a b = true ↔ key a ≤ key b) (list : List α) :
    (sortBy le list).Pairwise fun a b => key a ≤ key b := by
  have htotal : Std.Total fun a b => le a b = true := ⟨fun a b => by simpa only [hle] using le_total (key a) (key b)⟩
  have htrans : IsTrans α fun a b => le a b = true := ⟨fun a b c => by simpa only [hle] using le_trans⟩
  rw [sortBy_eq_insertionSort]
  exact (List.pairwise_insertionSort _ list).imp fun {a b} h => (hle a b).mp h

end Sorting

namespace Text

theorem le_iff (a b : Text) : le a b = true ↔ a ≤ b := by
  induction a generalizing b with
  | nil => exact iff_of_true rfl (not_lt.mp (List.not_lt_nil b))
  | cons c a ih =>
    cases b with
    | nil => exact iff_of_false Bool.false_ne_true (by simp)
    | cons d b =>
      rw [le, le_iff_lt_or_eq, List.cons_lt_cons_iff]
      by_cases hcd : c = d
      · simp [hcd, ih b, le_iff_lt_or_eq]
      · simp [hcd]

theorem sortBy_pairwise (texts : List Text) : (sortBy le texts).Pairwise (· ≤ ·) :=
  sortBy_pairwise_key id le_iff texts

/-- Sorted lists of the same texts are equal. -/
theorem eq_of_perm_of_pairwise {a b : List Text} (hperm : a.Perm b) (ha : a.Pairwise (· ≤ ·))
    (hb : b.Pairwise (· ≤ ·)) : a = b :=
  hperm.eq_of_pairwise (fun _ _ _ _ => le_antisymm) ha hb

end Text

end SourceOrigin
