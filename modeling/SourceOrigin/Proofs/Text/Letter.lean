import SourceOrigin.Text.Case
import Mathlib.Data.List.Forall2

/-! Letters without regard to case. The characters that are the same letter as a given one are found backwards through the
tables of shifts (`variants`); here it is shown that none is missed, so what is the same letter can be told by evaluation. -/
namespace SourceOrigin.Text

def leadsToChars (row : Nat × Nat × Nat × Nat) : Bool :=
  let (first, last, _, image) := row
  let furthest := image + (last - first)
  furthest < 0xD800 || 0xDFFF < image && furthest < 0x110000

private theorem isValidChar_shifted {table : List (Nat × Nat × Nat × Nat)} (htable : table.all leadsToChars = true)
    (c : Char) :
    (shifted table c.toNat).isValidChar := by
  unfold shifted
  split
  · next first last step image hfound =>
    have hrow := List.all_eq_true.mp htable _ (List.mem_of_find?_eq_some hfound)
    have hrange := List.find?_some hfound
    simp only [leadsToChars, Bool.or_eq_true, Bool.and_eq_true, decide_eq_true_eq] at hrow hrange
    simp only [Nat.isValidChar]
    omega
  · exact c.valid

private theorem mem_sources_shifted (table : List (Nat × Nat × Nat × Nat)) (n : Nat) :
    n ∈ sources table (shifted table n) := by
  unfold shifted
  split
  · next first last step image hfound =>
    have hrange := List.find?_some hfound
    simp only [Bool.and_eq_true, decide_eq_true_eq] at hrange
    refine List.mem_cons_of_mem _ (List.mem_filterMap.mpr ⟨_, List.mem_of_find?_eq_some hfound, ?_⟩)
    obtain ⟨⟨hfirst, hlast⟩, hstep⟩ := hrange
    simp [hstep]
    omega
  · exact List.mem_cons_self

private theorem toNat_ofNat_shifted {table : List (Nat × Nat × Nat × Nat)} (htable : table.all leadsToChars = true)
    (c : Char) :
    (Char.ofNat (shifted table c.toNat)).toNat = shifted table c.toNat := by
  rw [Char.ofNat, dif_pos (isValidChar_shifted htable c)]
  rfl

private theorem shifted_ascii {table rows : List (Nat × Nat × Nat × Nat)} (hrows : table.filter (·.1 < 0x80) = rows)
    {n : Nat}
    (hn : n < 0x80) : shifted table n = shifted rows n := by
  subst hrows
  unfold shifted
  congr 1
  rw [List.find?_filter]
  congr 1
  funext row
  obtain ⟨first, last, step, image⟩ := row
  have hfirst : first ≤ n → first < 0x80 := fun h => Nat.lt_of_le_of_lt h hn
  by_cases h : first ≤ n <;> simp [h, hfirst]

private theorem lowerChar_eq (c : Char) : lowerChar c = Char.ofNat (shifted lowerShifts c.toNat) := by
  have hrows : lowerShifts.filter (·.1 < 0x80) = [(0x41, 0x5A, 1, 0x61)] := by decide +kernel
  have hascii : ∀ n < 0x80, (if (Char.ofNat n).isUpper then Char.ofNat (n + 32) else Char.ofNat n) =
      Char.ofNat (shifted lowerShifts n) := by
    intro n hn
    rw [shifted_ascii hrows hn]
    revert n
    decide +kernel
  unfold lowerChar
  split
  · next h => simpa using hascii c.toNat h
  · rfl

private theorem upperChar_eq (c : Char) : upperChar c =
    match upperExpansions.lookup c.toNat with
    | some image => image.map Char.ofNat
    | none => [Char.ofNat (shifted upperShifts c.toNat)] := by
  have hrows : upperShifts.filter (·.1 < 0x80) = [(0x61, 0x7A, 1, 0x41)] := by decide +kernel
  have hnone : ∀ n < 0x80, upperExpansions.lookup n = none := by
    have hall : upperExpansions.all (0x80 ≤ ·.1) = true := by decide +kernel
    intro n hn
    rw [List.lookup_eq_none_iff]
    intro pair hmem
    have hfirst := List.all_eq_true.mp hall pair hmem
    rw [decide_eq_true_eq] at hfirst
    rw [bne_iff_ne]
    omega
  have hascii : ∀ n < 0x80, (if (Char.ofNat n).isLower then Char.ofNat (n - 32) else Char.ofNat n) =
      Char.ofNat (shifted upperShifts n) := by
    intro n hn
    rw [shifted_ascii hrows hn]
    revert n
    decide +kernel
  unfold upperChar
  split
  · next h => simpa [hnone c.toNat h] using hascii c.toNat h
  · rfl

/-- The variants of a character are all that are the same letter. -/
theorem mem_variants_iff {c d : Char} : d ∈ variants c ↔ sameLetter c d = true := by
  rw [variants, List.mem_filter, and_iff_right_iff_imp]
  intro hsame
  have hupper : upperChar (lowerChar c) = upperChar (lowerChar d) := by simpa [sameLetter] using hsame
  rw [hupper]
  have hlower : d.toNat ∈ sources lowerShifts (lowerChar d).toNat := by
    rw [lowerChar_eq, toNat_ofNat_shifted (by decide +kernel)]
    exact mem_sources_shifted lowerShifts d.toNat
  refine List.mem_map.mpr ⟨d.toNat, List.mem_flatMap.mpr ⟨(lowerChar d).toNat, ?_, hlower⟩, Char.ofNat_toNat d⟩
  generalize lowerChar d = form
  rw [upperChar_eq]
  cases hlookup : upperExpansions.lookup form.toNat with
  | none =>
    dsimp only
    rw [toNat_ofNat_shifted (by decide +kernel)]
    exact mem_sources_shifted upperShifts form.toNat
  | some image =>
    obtain ⟨front, behind, htable, -⟩ := List.lookup_eq_some_iff.mp hlookup
    have hmem : (form.toNat, image) ∈ upperExpansions := by
      rw [htable]
      exact List.mem_append_right _ List.mem_cons_self
    have hseveral : image.length ≠ 1 := by
      have hall : upperExpansions.all (·.2.length ≠ 1) = true := by decide +kernel
      simpa using List.all_eq_true.mp hall _ hmem
    dsimp only
    split
    · next c hsingle =>
      have hlength := congrArg List.length hsingle
      rw [List.length_map] at hlength
      exact absurd hlength hseveral
    · exact List.mem_filterMap.mpr ⟨_, hmem, by simp⟩

/-- What is the same letter as a character is told by a list of its variants. -/
theorem sameLetter_iff_mem {c d : Char} {same : List Char}
    (h : ((variants c).all same.contains && same.all (sameLetter c)) = true) : sameLetter c d = true ↔ d ∈ same := by
  simp only [Bool.and_eq_true, List.all_eq_true, List.contains_iff_mem] at h
  exact ⟨fun hsame => h.1 d (mem_variants_iff.mpr hsame), h.2 d⟩

end SourceOrigin.Text
