import SourceOrigin.Proofs.Text.Break

/-! Texts whose carriage returns are turned into line feeds. A clean cut of a text becomes a cut of the unified text, and
each cut of the unified text comes from one. Nothing else changes, so lines stay the same and breaks stay breaks. -/
namespace SourceOrigin.Text
variable {text front rest brk part : Text} {c : Char}

/-- A text is built from its end: by a carriage return with its line feed, or by any other character. -/
@[elab_as_elim]
theorem break_induction {motive : Text → Prop} (nil : motive [])
    (pair : ∀ rest, motive rest → motive ('\r' :: '\n' :: rest))
    (cons : ∀ c rest, CleanCut [c] rest → motive rest → motive (c :: rest)) (text : Text) : motive text := by
  induction h : text.length using Nat.strongRecOn generalizing text with
  | _ n ih =>
    subst h
    match text with
    | [] => exact nil
    | c :: rest =>
      by_cases hpair : c = '\r' ∧ rest.head? = some '\n'
      · obtain ⟨rfl, hrest⟩ := hpair
        obtain ⟨rest, rfl⟩ := List.head?_eq_some_iff.mp hrest
        exact pair rest (ih _ (by simp only [List.length_cons]; omega) rest rfl)
      · refine cons c rest ?_ (ih _ (Nat.lt_succ_self _) rest rfl)
        rintro hlast hhead
        exact hpair ⟨by simpa using hlast, hhead⟩

def unifyChar (c : Char) : Char := if c = '\r' then '\n' else c

private theorem unifyBreaks_cons_of_cleanCut (h : CleanCut [c] rest) :
    unifyBreaks (c :: rest) = unifyChar c :: unifyBreaks rest :=
  unifyBreaks_cons c rest fun hc => h (by rw [hc]; rfl)

private theorem head?_unifyBreaks (text : Text) : (unifyBreaks text).head? = text.head?.map unifyChar := by
  induction text using break_induction with
  | nil => rfl
  | pair rest _ => rw [unifyBreaks_return_feed]; rfl
  | cons c rest hcut _ => rw [unifyBreaks_cons_of_cleanCut hcut]; rfl

/-- What does not tell a carriage return and a line feed apart holds at the front of the unified text too. -/
theorem forall_head?_unifyBreaks {p : Char → Prop} (hp : p '\r' → p '\n') (h : ∀ c ∈ text.head?, p c) :
    ∀ c ∈ (unifyBreaks text).head?, p c := by
  intro c hc
  rw [head?_unifyBreaks] at hc
  obtain ⟨d, hd, rfl⟩ := Option.map_eq_some_iff.mp hc
  unfold unifyChar
  split
  · next heq => exact hp (heq ▸ h d hd)
  · exact h d hd

private theorem not_mem_unifyBreaks (text : Text) : '\r' ∉ unifyBreaks text := by
  induction text using break_induction with
  | nil => exact List.not_mem_nil
  | pair rest ih =>
    rw [unifyBreaks_return_feed]
    simpa using ih
  | cons c rest hcut ih =>
    rw [unifyBreaks_cons_of_cleanCut hcut]
    refine fun hmem => (List.mem_cons.mp hmem).elim (fun hc => ?_) ih
    unfold unifyChar at hc
    split at hc
    · simp at hc
    · next hne => exact hne hc.symm

/-- A unified text may be cut anywhere. -/
theorem cleanCut_unifyBreaks (text rest : Text) : CleanCut (unifyBreaks text) rest :=
  cleanCut_of_getLast (fun _ hc heq => not_mem_unifyBreaks text (heq ▸ List.mem_of_getLast? hc)) rest

theorem unifyBreaks_of_not_mem (h : '\r' ∉ text) : unifyBreaks text = text := by
  induction text with
  | nil => rfl
  | cons c text ih =>
    have hc : c ≠ '\r' := fun heq => h (heq ▸ List.mem_cons_self)
    rw [unifyBreaks_cons c text fun heq => absurd heq hc, if_neg hc, ih fun hmem => h (List.mem_cons_of_mem c hmem)]

theorem Unbroken.unifyBreaks_eq (h : Unbroken text) : unifyBreaks text = text :=
  unifyBreaks_of_not_mem fun hmem => absurd (h '\r' hmem) (by decide)

theorem unifyBreaks_append (h : CleanCut front rest) :
    unifyBreaks (front ++ rest) = unifyBreaks front ++ unifyBreaks rest := by
  induction front using break_induction with
  | nil => rfl
  | pair front ih =>
    have hcut : CleanCut front rest := by
      cases front with
      | nil => exact cleanCut_nil_left rest
      | cons c front => simpa [CleanCut] using h
    rw [List.cons_append, List.cons_append, unifyBreaks_return_feed, unifyBreaks_return_feed, ih hcut]
    rfl
  | cons c front hcut ih =>
    cases front with
    | nil =>
      have hnil : unifyBreaks [c] = [unifyChar c] := unifyBreaks_cons_of_cleanCut (cleanCut_nil_right [c])
      rw [List.singleton_append, unifyBreaks_cons_of_cleanCut h, hnil]
      rfl
    | cons d front =>
      have hmore : CleanCut (d :: front) rest := by simpa [CleanCut] using h
      rw [List.cons_append, unifyBreaks_cons_of_cleanCut (hcut.append_right (List.cons_ne_nil _ _) rest),
        unifyBreaks_cons_of_cleanCut hcut, ih hmore]
      rfl

theorem Unbroken.unifyBreaks_append (h : Unbroken front) (rest : Text) :
    unifyBreaks (front ++ rest) = front ++ unifyBreaks rest := by
  rw [Text.unifyBreaks_append (cleanCut_of_unbroken h rest), h.unifyBreaks_eq]

@[simp] theorem unifyBreaks_eq_nil_iff : unifyBreaks text = [] ↔ text = [] := by
  rw [← List.head?_eq_none_iff, head?_unifyBreaks, Option.map_eq_none_iff, List.head?_eq_none_iff]

private theorem exists_of_unifyBreaks_eq_append (h : unifyBreaks text = front ++ rest) : ∃ front' rest',
    text = front' ++ rest' ∧ CleanCut front' rest' ∧ unifyBreaks front' = front ∧ unifyBreaks rest' = rest := by
  induction text using break_induction generalizing front with
  | nil =>
    obtain ⟨rfl, rfl⟩ := List.append_eq_nil_iff.mp h.symm
    exact ⟨[], [], rfl, cleanCut_nil_left [], rfl, rfl⟩
  | pair text ih =>
    cases front with
    | nil => exact ⟨[], _, rfl, cleanCut_nil_left _, rfl, h⟩
    | cons d front =>
      rw [unifyBreaks_return_feed] at h
      obtain ⟨rfl, hmore⟩ := List.cons.inj h
      obtain ⟨front', rest', rfl, hcut, rfl, hrest⟩ := ih hmore
      refine ⟨'\r' :: '\n' :: front', rest', rfl, ?_, unifyBreaks_return_feed front', hrest⟩
      exact cleanCut_cons (by simp) (cleanCut_cons (fun _ => cleanCut_of_getLast (by simp) rest') hcut)
  | cons c text hpair ih =>
    cases front with
    | nil => exact ⟨[], _, rfl, cleanCut_nil_left _, rfl, h⟩
    | cons d front =>
      rw [unifyBreaks_cons_of_cleanCut hpair] at h
      obtain ⟨rfl, hmore⟩ := List.cons.inj h
      obtain ⟨front', rest', rfl, hcut, rfl, hrest⟩ := ih hmore
      refine ⟨c :: front', rest', rfl, cleanCut_cons ?_ hcut, unifyBreaks_cons_of_cleanCut hpair.of_append_right, hrest⟩
      rintro rfl
      exact hpair

/-- The text holds neither a carriage return nor a line feed. -/
def FeedFree (text : Text) : Prop := '\r' ∉ text ∧ '\n' ∉ text

instance (text : Text) : Decidable (FeedFree text) := inferInstanceAs (Decidable (_ ∧ _))

private theorem not_mem_of_feed_not_mem (h : '\n' ∉ unifyBreaks text) : '\r' ∉ text := by
  induction text using break_induction with
  | nil => exact List.not_mem_nil
  | pair rest ih => simp [unifyBreaks_return_feed] at h
  | cons c rest hcut ih =>
    rw [unifyBreaks_cons_of_cleanCut hcut, List.mem_cons, not_or] at h
    refine fun hmem => (List.mem_cons.mp hmem).elim (fun hc => ?_) (ih h.2)
    exact h.1 (by rw [← hc]; rfl)

section
variable (hpart : FeedFree part)
include hpart

theorem cleanCut_part (hne : part ≠ []) (front rest : Text) : CleanCut front (part ++ rest) := by
  obtain ⟨c, part, rfl⟩ := List.exists_cons_of_ne_nil hne
  intro _ hhead
  exact hpart.2 (Option.some.inj hhead ▸ List.mem_cons_self)

theorem unifyBreaks_part_append (rest : Text) : unifyBreaks (part ++ rest) = part ++ unifyBreaks rest := by
  have hcut : CleanCut part rest :=
    cleanCut_of_getLast (fun c hc heq => hpart.1 (heq ▸ List.mem_of_getLast? hc)) rest
  rw [unifyBreaks_append hcut, unifyBreaks_of_not_mem hpart.1]

private theorem exists_of_unifyBreaks_eq_part (h : unifyBreaks text = part ++ rest) :
    ∃ rest', text = part ++ rest' ∧ unifyBreaks rest' = rest := by
  obtain ⟨part', rest', rfl, -, hpart', hrest⟩ := exists_of_unifyBreaks_eq_append h
  have hsame : part' = part := by
    rw [← hpart', unifyBreaks_of_not_mem (not_mem_of_feed_not_mem (hpart' ▸ hpart.2))]
  exact ⟨rest', by rw [hsame], hrest⟩

theorem prefix_unifyBreaks_iff : part <+: unifyBreaks text ↔ part <+: text := by
  constructor
  · rintro ⟨rest, hrest⟩
    obtain ⟨rest, rfl, -⟩ := exists_of_unifyBreaks_eq_part hpart hrest.symm
    exact List.prefix_append part rest
  · rintro ⟨rest, rfl⟩
    rw [unifyBreaks_part_append hpart]
    exact List.prefix_append part _

/-- A part in the middle of the unified text comes from the same part of the text. -/
theorem exists_of_unifyBreaks_eq_infix (h : unifyBreaks text = front ++ (part ++ rest)) : ∃ front' rest',
    text = front' ++ (part ++ rest') ∧ unifyBreaks front' = front ∧ unifyBreaks rest' = rest := by
  obtain ⟨front', behind, rfl, -, hfront, hbehind⟩ := exists_of_unifyBreaks_eq_append h
  obtain ⟨rest', rfl, hrest⟩ := exists_of_unifyBreaks_eq_part hpart hbehind
  exact ⟨front', rest', rfl, hfront, hrest⟩

theorem infix_unifyBreaks_iff : part <:+: unifyBreaks text ↔ part <:+: text := by
  constructor
  · rintro ⟨front, rest, hrest⟩
    rw [List.append_assoc] at hrest
    obtain ⟨front, rest, rfl, -⟩ := exists_of_unifyBreaks_eq_infix hpart hrest.symm
    exact ⟨front, rest, List.append_assoc _ _ _⟩
  · rintro ⟨front, rest, rfl⟩
    by_cases hne : part = []
    · exact hne ▸ List.nil_infix
    · rw [List.append_assoc, unifyBreaks_append (cleanCut_part hpart hne front rest), unifyBreaks_part_append hpart]
      exact ⟨_, _, List.append_assoc _ _ _⟩

end

theorem lineAt_unifyBreaks (text : Text) :
    lineAt (unifyBreaks text) = lineAt text ∧ afterLine (unifyBreaks text) = unifyBreaks (afterLine text) := by
  have hline := unbroken_lineAt text
  have hbreak : ∀ c ∈ (unifyBreaks (afterLine text)).head?, isBreak c = true :=
    forall_head?_unifyBreaks (by decide) (isBreak_of_mem_afterLine text)
  have hwhole : unifyBreaks text = lineAt text ++ unifyBreaks (afterLine text) := by
    rw [← hline.unifyBreaks_append, lineAt_append_afterLine]
  rw [hwhole]
  exact line_append hline hbreak

theorem unifyBreaks_mem_breakForms (h : brk ∈ breakForms) : unifyBreaks brk ∈ breakForms := by
  simp only [breakForms, List.mem_cons, List.not_mem_nil, or_false] at h
  rcases h with rfl | rfl | rfl | rfl | rfl | rfl
  all_goals decide

theorem breakAt_unifyBreaks (text : Text) :
    breakAt (unifyBreaks text) = unifyBreaks (breakAt text) ∧ afterBreak (unifyBreaks text) = unifyBreaks (afterBreak text) := by
  by_cases hnone : breakAt text = []
  · have hhead : ∀ c ∈ (unifyBreaks text).head?, isBreak c = false := by
      refine forall_head?_unifyBreaks (by decide) fun c hc => ?_
      cases hbreak : isBreak c with
      | false => rfl
      | true =>
        obtain ⟨rest, rfl⟩ := List.head?_eq_some_iff.mp hc
        exact absurd hnone (breakAt_ne_nil hbreak rest)
    rw [afterBreak, afterBreak, breakAt_of_head hhead, hnone]
    exact ⟨rfl, rfl⟩
  · obtain ⟨hform, hcut⟩ := breakAt_mem_breakForms hnone
    have hwhole := unifyBreaks_append hcut
    rw [breakAt_append_afterBreak] at hwhole
    rw [hwhole]
    exact breakAt_form (unifyBreaks_mem_breakForms hform) (cleanCut_unifyBreaks _ _)

end SourceOrigin.Text
