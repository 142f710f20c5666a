import SourceOrigin.Text.Terminal

/-! Texts without their control sequences. No control sequence goes on over the end of a line, so lines lose theirs one by
one (`plain_append_feed`). -/
namespace SourceOrigin.Text

private theorem plainOnto_some {c : Char} {rest after : Text} (h : behindControl? (c :: rest) = some after) (done : Text) :
    plainOnto done (c :: rest) = plainOnto done after := by
  rw [plainOnto]
  split
  · next found hfound => rw [Option.some.inj (hfound.symm.trans h)]
  · next hnone => simp [hnone] at h

private theorem plainOnto_none {c : Char} {rest : Text} (h : behindControl? (c :: rest) = none) (done : Text) :
    plainOnto done (c :: rest) = plainOnto (c :: done) rest := by
  rw [plainOnto]
  split
  · next found hfound => simp [hfound] at h
  · rfl

private theorem plainOnto_eq (done text : Text) : plainOnto done text = done.reverse ++ plain text := by
  unfold plain
  induction hlength : text.length using Nat.strongRecOn generalizing done text with
  | ind n ih =>
    subst hlength
    cases text with
    | nil => rw [plainOnto, plainOnto, List.reverse_nil, List.append_nil]
    | cons c rest =>
      cases hbehind : behindControl? (c :: rest) with
      | some after =>
        rw [plainOnto_some hbehind, plainOnto_some hbehind]
        exact ih after.length (length_behindControl_lt hbehind) done after rfl
      | none =>
        have hlt : rest.length < (c :: rest).length := Nat.lt_succ_self _
        rw [plainOnto_none hbehind, plainOnto_none hbehind, ih rest.length hlt (c :: done) rest rfl,
          ih rest.length hlt [c] rest rfl, List.reverse_cons, List.append_assoc, List.reverse_singleton]

theorem plain_nil : plain [] = [] := by rw [plain, plainOnto, List.reverse_nil]

theorem plain_of_behindControl? {c : Char} {rest after : Text} (h : behindControl? (c :: rest) = some after) :
    plain (c :: rest) = plain after := plainOnto_some h []

theorem plain_cons {c : Char} {rest : Text} (h : behindControl? (c :: rest) = none) :
    plain (c :: rest) = c :: plain rest := by
  rw [plain, plainOnto_none h, plainOnto_eq, List.reverse_singleton, List.singleton_append]

private theorem behindControl?_of_ne {text : Text}
    (h : ∀ rest, text ≠ '\x1b' :: '[' :: rest) : behindControl? text = none := by
  unfold behindControl?
  split
  · next rest => exact absurd rfl (h rest)
  · rfl

private theorem behindControl?_cons {c : Char} (h : c ≠ '\x1b') (rest : Text) : behindControl? (c :: rest) = none :=
  behindControl?_of_ne fun _ heq => h (List.cons.inj heq).1

theorem plain_append_of_not_mem {front : Text} (h : '\x1b' ∉ front) (rest : Text) :
    plain (front ++ rest) = front ++ plain rest := by
  induction front with
  | nil => rfl
  | cons c front ih =>
    rw [List.mem_cons, not_or] at h
    rw [List.cons_append, plain_cons (behindControl?_cons (Ne.symm h.1) _), ih h.2, List.cons_append]

theorem plain_eq_self {text : Text} (h : '\x1b' ∉ text) : plain text = text := by
  have hplain := plain_append_of_not_mem h []
  rwa [plain_nil, List.append_nil] at hplain

private theorem suffix_of_behindControl? {text after : Text} (h : behindControl? text = some after) : after <:+ text := by
  unfold behindControl? at h
  split at h
  · next rest =>
    split at h
    · next final behind hbehind =>
      split at h
      · obtain rfl := Option.some.inj h
        have hdropped : final :: behind <:+ rest := hbehind ▸ List.dropWhile_suffix isParameter
        exact ((List.suffix_cons final behind).trans hdropped).trans ((List.suffix_cons '[' rest).trans (List.suffix_cons _ _))
      · simp at h
    · simp at h
  · simp at h

/-- Characters are left out, and none is added. -/
theorem plain_sublist (text : Text) : (plain text).Sublist text := by
  induction hlength : text.length using Nat.strongRecOn generalizing text with
  | ind n ih =>
    subst hlength
    cases text with
    | nil => simp [plain_nil]
    | cons c rest =>
      cases hbehind : behindControl? (c :: rest) with
      | some after =>
        rw [plain_of_behindControl? hbehind]
        exact (ih after.length (length_behindControl_lt hbehind) after rfl).trans (suffix_of_behindControl? hbehind).sublist
      | none =>
        rw [plain_cons hbehind]
        exact (ih rest.length (Nat.lt_succ_self _) rest rfl).cons_cons c

/-- No control sequence goes on over the end of a line. -/
theorem behindControl?_append_feed (line rest : Text) :
    behindControl? (line ++ '\n' :: rest) = (behindControl? line).map (· ++ '\n' :: rest) := by
  by_cases hopening : ∃ parameters, line = '\x1b' :: '[' :: parameters
  · obtain ⟨parameters, rfl⟩ := hopening
    simp only [List.cons_append, behindControl?, List.dropWhile_append]
    cases parameters.dropWhile isParameter with
    | nil => rfl
    | cons final after =>
      simp only [List.isEmpty_cons, Bool.false_eq_true, if_false, List.cons_append]
      split <;> rfl
  · have hline : behindControl? line = none := behindControl?_of_ne fun parameters heq => hopening ⟨parameters, heq⟩
    rw [hline, Option.map_none]
    refine behindControl?_of_ne fun parameters heq => ?_
    rcases line with _ | ⟨c, _ | ⟨d, line⟩⟩
    · simp at heq
    · simp at heq
    · obtain ⟨rfl, hrest⟩ := List.cons.inj heq
      obtain ⟨rfl, -⟩ := List.cons.inj hrest
      exact hopening ⟨line, rfl⟩

theorem plain_append_feed (line rest : Text) : plain (line ++ '\n' :: rest) = plain line ++ '\n' :: plain rest := by
  induction hlength : line.length using Nat.strongRecOn generalizing line with
  | ind n ih =>
    subst hlength
    cases line with
    | nil => rw [List.nil_append, plain_nil, List.nil_append, plain_cons (behindControl?_cons (by decide) rest)]
    | cons c line =>
      have hcontrol := behindControl?_append_feed (c :: line) rest
      cases hbehind : behindControl? (c :: line) with
      | some after =>
        rw [hbehind] at hcontrol
        rw [List.cons_append] at hcontrol ⊢
        rw [plain_of_behindControl? hcontrol, plain_of_behindControl? hbehind]
        exact ih after.length (length_behindControl_lt hbehind) after rfl
      | none =>
        rw [hbehind] at hcontrol
        rw [List.cons_append] at hcontrol ⊢
        rw [plain_cons hcontrol, plain_cons hbehind, ih line.length (Nat.lt_succ_self _) line rfl, List.cons_append]

end SourceOrigin.Text
