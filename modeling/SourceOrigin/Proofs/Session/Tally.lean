import SourceOrigin.Session.Scan

/-! The count of a scan as a function of the outcomes collected: which of them ends the collecting, and what is counted
if none does. -/
namespace SourceOrigin

def isVerdict (verdict : Bool) : Except SessionError Bool → Bool
  | .ok found => found == verdict
  | .error _ => false

theorem isVerdict_iff {verdict : Bool} {outcome : Except SessionError Bool} :
    isVerdict verdict outcome = true ↔ outcome = .ok verdict := by
  cases outcome with
  | ok found => simp [isVerdict]
  | error error => simp [isVerdict]

/-- The error by which an outcome ends the collecting; a file that cannot be read does not end it. -/
def stop? : Except SessionError Bool → Option SessionError
  | .ok _ => none
  | .error (.load (.unreadable _ _)) => none
  | .error error => some error

theorem stop?_error {error : SessionError} (h : ∀ file fault, error ≠ .load (.unreadable file fault)) :
    stop? (.error error) = some error := by
  unfold stop?
  split
  · next heq => simp at heq
  · next file fault heq => exact absurd (Except.error.inj heq) (h file fault)
  · next heq => rw [Except.error.inj heq]

theorem eq_error_of_stop? {outcome : Except SessionError Bool} {error : SessionError}
    (h : stop? outcome = some error) : outcome = .error error := by
  unfold stop? at h
  split at h
  · simp at h
  · simp at h
  · rw [Option.some.inj h]

namespace Tally

/-- The first outcome that ends the collecting is its error. -/
theorem collect_error (tally : Tally) (outcomes : List (Path × Except SessionError Bool)) :
    (tally.collect outcomes).2 = outcomes.findSome? (stop? ·.2) := by
  fun_induction collect tally outcomes with
  | case1 => rfl
  | case2 _ _ _ ih => exact ih
  | case3 _ _ _ ih => exact ih
  | case4 _ _ _ _ _ _ _ ih => exact ih
  | case5 _ _ _ _ hreadable =>
    rw [List.findSome?_cons, stop?_error hreadable]

/-- If no outcome ends the collecting, every one is counted in one place. -/
theorem collect_counts {tally : Tally} {outcomes : List (Path × Except SessionError Bool)}
    (h : (tally.collect outcomes).2 = none) :
    (tally.collect outcomes).1.generated.reverse =
        tally.generated.reverse ++ (outcomes.filter (isVerdict true ·.2)).map (·.1.toText) ∧
      (tally.collect outcomes).1.handwritten.reverse =
        tally.handwritten.reverse ++ (outcomes.filter (isVerdict false ·.2)).map (·.1.toText) ∧
      (tally.collect outcomes).1.errors =
        tally.errors + outcomes.countP fun outcome => !isVerdict true outcome.2 && !isVerdict false outcome.2 := by
  fun_induction collect tally outcomes with
  | case1 => simp
  | case2 _ _ _ ih =>
    obtain ⟨hgenerated, hhandwritten, herrors⟩ := ih h
    simp [hgenerated, hhandwritten, herrors, isVerdict]
  | case3 _ _ _ ih =>
    obtain ⟨hgenerated, hhandwritten, herrors⟩ := ih h
    simp [hgenerated, hhandwritten, herrors, isVerdict]
  | case4 _ _ _ _ _ _ _ ih =>
    obtain ⟨hgenerated, hhandwritten, herrors⟩ := ih h
    refine ⟨by simp [hgenerated, isVerdict], by simp [hhandwritten, isVerdict], ?_⟩
    rw [herrors, List.countP_cons_of_pos (by simp [isVerdict])]
    exact Nat.add_right_comm _ 1 _
  | case5 => simp at h

end Tally

end SourceOrigin
