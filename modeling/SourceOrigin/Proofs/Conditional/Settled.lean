import SourceOrigin.Proofs.Conditional.Reference

/-! What the guards of a group settle from the front: which branches are spent and which are dead depends
only on the guards up to them. -/
namespace SourceOrigin.Conditional

def settled (conditions : List Condition) : Condition := (conditions.find? (· ≠ .fails)).getD .fails

@[simp] theorem settled_nil : settled [] = .fails := rfl

theorem settled_cons (condition : Condition) (conditions : List Condition) :
    settled (condition :: conditions) = if condition = .fails then settled conditions else condition := by
  cases condition <;> simp [settled]

theorem settled_take_succ {conditions : List Condition} {number : Nat} {condition : Condition}
    (h : conditions[number]? = some condition) : settled (conditions.take (number + 1)) =
      if settled (conditions.take number) = .fails then condition
      else settled (conditions.take number) := by
  rw [List.take_add_one, h, Option.toList_some]
  induction conditions.take number with
  | nil => cases condition <;> rfl
  | cons first conditions ih =>
    rw [List.cons_append, settled_cons, settled_cons, ih]
    cases first <;> simp

private theorem settled_take (conditions : List Condition) (number : Nat) :
    settled (conditions.take number) =
      match decisive conditions with
      | none => .fails
      | some first => if first < number then conditions[first]?.getD .fails else .fails := by
  induction conditions generalizing number with
  | nil => simp [decisive]
  | cons condition conditions ih =>
    cases number with
    | zero => cases decisive (condition :: conditions) <;> rfl
    | succ number =>
      rw [List.take_succ_cons, settled_cons, ih number]
      by_cases h : condition = .fails
      · simp only [h, decisive, List.findIdx?_cons]
        cases conditions.findIdx? (· ≠ .fails) <;> simp
      · simp [h, decisive, List.findIdx?_cons]

/-- A branch is spent where the guards before it are settled to hold. -/
theorem isSpent_iff (conditions : List Condition) (number : Nat) :
    isSpent conditions number = true ↔ settled (conditions.take number) = .holds := by
  rw [settled_take, isSpent]
  cases decisive conditions with
  | none => simp
  | some first =>
    by_cases h : first < number
    · cases hread : conditions[first]? <;> simp [h, hread]
    · simp [h]

/-- A branch is dead if it is spent, or its guard and those before it are known to fail. -/
theorem isDead_iff (conditions : List Condition) (number : Nat) :
    isDead conditions number = true ↔
      settled (conditions.take number) = .holds ∨ settled (conditions.take (number + 1)) = .fails := by
  rw [← isSpent_iff, settled_take, isDead]
  cases hfirst : decisive conditions with
  | none => simp
  | some first =>
    obtain ⟨condition, hread, hne⟩ : ∃ condition, conditions[first]? = some condition ∧ condition ≠ .fails := by
      obtain ⟨hlt, hne, -⟩ := List.findIdx?_eq_some_iff_getElem.mp hfirst
      exact ⟨conditions[first], List.getElem?_eq_getElem hlt, by simpa using hne⟩
    by_cases h : number < first
    · simp [h, Nat.not_lt.mpr h]
    · simp [h, Nat.lt_succ_of_le (Nat.not_lt.mp h), hread, hne]

theorem isSpent_mono {conditions : List Condition} {number later : Nat} (hle : number ≤ later)
    (h : isSpent conditions number = true) : isSpent conditions later = true := by
  unfold isSpent at h ⊢
  split at h
  · exact absurd h (by simp)
  · obtain ⟨hlt, hholds⟩ : _ < number ∧ _ := by simpa using h
    simpa using ⟨Nat.lt_of_lt_of_le hlt hle, hholds⟩

theorem settled_take_of_fails {conditions : List Condition} {number : Nat}
    (h : ∀ before < number, conditions[before]? = some .fails) : settled (conditions.take number) = .fails := by
  induction number with
  | zero => rfl
  | succ number ih =>
    rw [settled_take_succ (h number (Nat.lt_succ_self _)), ih fun before hlt => h before (Nat.lt_succ_of_lt hlt)]
    rfl

/-- If guards are settled to hold, one of them does and those before it fail. -/
theorem exists_of_settled_holds {conditions : List Condition} (h : settled conditions = .holds) :
    ∃ number : Nat, conditions[number]? = some .holds ∧ ∀ before < number, conditions[before]? = some .fails := by
  induction conditions with
  | nil => simp at h
  | cons condition conditions ih =>
    rw [settled_cons] at h
    split at h
    · next hfails =>
      obtain ⟨number, hholds, hbefore⟩ := ih h
      refine ⟨number + 1, hholds, fun before hlt => ?_⟩
      cases before with
      | zero => simp [hfails]
      | succ before => simpa using hbefore before (Nat.lt_of_succ_lt_succ hlt)
    · exact ⟨0, by simp [h], by simp⟩

theorem fails_of_settled_fails {conditions : List Condition} (h : settled conditions = .fails) :
    ∀ condition ∈ conditions, condition = .fails := by
  induction conditions with
  | nil => simp
  | cons condition conditions ih =>
    rw [settled_cons] at h
    split at h
    · next hfails => exact List.forall_mem_cons.mpr ⟨hfails, ih h⟩
    · exact absurd h (by assumption)

end SourceOrigin.Conditional
