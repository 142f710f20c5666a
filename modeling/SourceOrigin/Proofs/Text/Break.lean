import SourceOrigin.Proofs.Text.Line
import Mathlib.Data.List.Basic

/-! The six forms of a line break, and cuts of a text that leave every break whole. A carriage return and the line feed
after it are one break, so a text is cut cleanly everywhere but between these two. A text of complete lines is cut behind
each break. -/
namespace SourceOrigin.Text
variable {brk front text rest : Text}

def breakForms : List Text := [['\r', '\n'], ['\r'], ['\n'], ['\u0085'], ['\u2028'], ['\u2029']]

/-- A cut that does not fall between a carriage return and the line feed after it. -/
def CleanCut (front rest : Text) : Prop := front.getLast? = some '\r' → rest.head? ≠ some '\n'

instance (front rest : Text) : Decidable (CleanCut front rest) := inferInstanceAs (Decidable (_ → _))

theorem cleanCut_nil_left (rest : Text) : CleanCut [] rest := by simp [CleanCut]

theorem cleanCut_nil_right (front : Text) : CleanCut front [] := by simp [CleanCut]

/-- Of what stands in front of the cut only the end matters. -/
theorem CleanCut.append_left (h : CleanCut text rest) (hne : text ≠ []) (front : Text) :
    CleanCut (front ++ text) rest := by
  rw [CleanCut, List.getLast?_append_of_ne_nil _ hne]
  exact h

theorem CleanCut.append_right (h : CleanCut front text) (hne : text ≠ []) (rest : Text) :
    CleanCut front (text ++ rest) := by
  obtain ⟨c, text, rfl⟩ := List.exists_cons_of_ne_nil hne
  exact h

/-- Of two cuts next to each other the first is clean in front of all that follows. -/
theorem CleanCut.append_of_cut (h : CleanCut front text) (hcut : CleanCut (front ++ text) rest) :
    CleanCut front (text ++ rest) := by
  by_cases hnil : text = []
  · subst hnil
    rwa [List.append_nil] at hcut
  · exact h.append_right hnil rest

theorem CleanCut.of_append_right (h : CleanCut front (text ++ rest)) : CleanCut front text := by
  cases text with
  | nil => exact cleanCut_nil_right front
  | cons c text => exact h

/-- Behind an empty text the cut is clean, and behind any other only its end matters. -/
theorem CleanCut.of_append_left (h : CleanCut (front ++ text) rest) : CleanCut text rest := by
  by_cases hnil : text = []
  · exact hnil ▸ cleanCut_nil_left rest
  · rwa [CleanCut, List.getLast?_append_of_ne_nil _ hnil] at h

theorem cleanCut_cons {c : Char} (hc : front = [] → CleanCut [c] rest) (h : CleanCut front rest) :
    CleanCut (c :: front) rest := by
  cases front with
  | nil => exact hc rfl
  | cons d front => exact h.append_left (List.cons_ne_nil _ _) [c]

/-- A cut is clean behind a character that is not a carriage return. -/
theorem cleanCut_of_getLast (h : ∀ c ∈ front.getLast?, c ≠ '\r') (rest : Text) : CleanCut front rest :=
  fun hlast => absurd rfl (h '\r' hlast)

theorem cleanCut_of_unbroken (h : Unbroken front) (rest : Text) : CleanCut front rest := by
  apply cleanCut_of_getLast
  rintro c hc rfl
  exact absurd (h '\r' (List.mem_of_getLast? hc)) (by decide)

theorem ne_nil_of_mem_breakForms (h : brk ∈ breakForms) : brk ≠ [] := by
  rintro rfl
  exact absurd h (by decide)

theorem isBreak_of_mem_breakForms (h : brk ∈ breakForms) : ∀ c ∈ brk, isBreak c = true := by
  simp only [breakForms, List.mem_cons, List.not_mem_nil, or_false] at h
  rcases h with rfl | rfl | rfl | rfl | rfl | rfl
  all_goals simp [isBreak]

theorem breakAt_ne_nil {c : Char} (h : isBreak c = true) (rest : Text) : breakAt (c :: rest) ≠ [] := by
  unfold breakAt
  split <;> simp_all

/-- A line is followed by a break, if more than that follows. -/
theorem breakAt_afterLine_ne_nil (h : afterBreak (afterLine text) ≠ []) : breakAt (afterLine text) ≠ [] := by
  intro hnone
  rw [afterBreak, hnone, List.length_nil, List.drop_zero] at h
  obtain ⟨c, more, hmore⟩ := List.exists_cons_of_ne_nil h
  exact breakAt_ne_nil (isBreak_of_mem_afterLine text c (by rw [hmore]; rfl)) more (hmore ▸ hnone)

/-- The break at the front of a text has one of the forms, and is cut off cleanly. -/
theorem breakAt_mem_breakForms (h : breakAt text ≠ []) :
    breakAt text ∈ breakForms ∧ CleanCut (breakAt text) (afterBreak text) := by
  unfold afterBreak
  fun_cases breakAt text with
  | case1 rest => exact ⟨by decide, by simp [CleanCut]⟩
  | case2 c rest hpair hc =>
    refine ⟨?_, ?_⟩
    · simp only [isBreak, Bool.or_eq_true, decide_eq_true_eq] at hc
      rcases hc with (((rfl | rfl) | rfl) | rfl) | rfl
      all_goals decide
    · intro hlast hhead
      obtain rfl : c = '\r' := by simpa using hlast
      obtain ⟨rest, rfl⟩ := List.head?_eq_some_iff.mp hhead
      exact hpair rest rfl rfl
  | case3 c rest _ hc => simp [breakAt, hc] at h
  | case4 => exact absurd rfl h

/-- A form that is cut off cleanly is the break at the front of a text. -/
theorem breakAt_form (h : brk ∈ breakForms) (hcut : CleanCut brk rest) :
    breakAt (brk ++ rest) = brk ∧ afterBreak (brk ++ rest) = rest := by
  suffices hbreak : breakAt (brk ++ rest) = brk by
    refine ⟨hbreak, ?_⟩
    rw [afterBreak, hbreak, List.drop_left]
  simp only [breakForms, List.mem_cons, List.not_mem_nil, or_false] at h
  rcases h with rfl | rfl | rfl | rfl | rfl | rfl
  · rfl
  · unfold breakAt
    split
    · next heq => exact absurd (congrArg List.head? (List.cons.inj heq).2) (hcut rfl)
    · next heq =>
      obtain ⟨rfl, -⟩ := List.cons.inj heq
      rfl
    · next heq => simp at heq
  all_goals rfl

theorem lineAt_append_of_mem (h : ∃ c ∈ text, isBreak c = true) (rest : Text) : lineAt (text ++ rest) = lineAt text := by
  obtain ⟨c, hc, hbreak⟩ := h
  have hline : lineAt text ++ afterLine text = text := List.takeWhile_append_dropWhile
  have hafter : afterLine text ≠ [] := by
    intro hnil
    rw [hnil, List.append_nil] at hline
    have hunbroken : Unbroken text := by
      rw [← hline]
      exact unbroken_lineAt text
    simp [hunbroken c hc] at hbreak
  have hbehind : ∀ d ∈ (afterLine text ++ rest).head?, isBreak d = true := by
    rw [List.head?_append_of_ne_nil _ hafter]
    exact isBreak_of_mem_afterLine text
  have hwhole := (line_append (unbroken_lineAt text) hbehind).1
  rwa [← List.append_assoc, hline] at hwhole

inductive IsLines : List Text → Text → Prop where
  | nil : IsLines [] []
  | cons {line brk rest : Text} {lines : List Text} : Unbroken line → brk ∈ breakForms → CleanCut brk rest →
      IsLines lines rest → IsLines (line :: lines) (line ++ (brk ++ rest))

section
variable {before more : Text}

def Complete (text : Text) : Prop := ∀ c ∈ text.getLast?, isBreak c = true

instance (text : Text) : Decidable (Complete text) := Option.decidableForallMem text.getLast?

private theorem complete_nil : Complete [] := by simp [Complete]

theorem Complete.of_append (h : Complete (front ++ rest)) : Complete rest := by
  by_cases hnil : rest = []
  · exact hnil ▸ complete_nil
  · rwa [Complete, List.getLast?_append_of_ne_nil _ hnil] at h

/-- Complete lines go on behind a piece without a break that they start with. -/
theorem Complete.exists_behind (h : Complete before) (hne : before ≠ []) (hfront : Unbroken front)
    (htext : front ++ rest = before ++ more) :
    ∃ behind, behind ≠ [] ∧ before = front ++ behind ∧ rest = behind ++ more := by
  have hnot : ¬ ∀ c ∈ before, c ∈ front := by
    intro hall
    have hmem := List.getLast_mem hne
    have hbreak := h _ (List.getLast?_eq_some_getLast hne)
    rw [hfront _ (hall _ hmem)] at hbreak
    exact Bool.false_ne_true hbreak
  rcases List.append_eq_append_iff.mp htext with ⟨behind, hbefore, hrest⟩ | ⟨behind, hwhole, -⟩
  · refine ⟨behind, ?_, hbefore, hrest⟩
    rintro rfl
    rw [List.append_nil] at hbefore
    exact hnot fun c hc => hbefore ▸ hc
  · exact absurd (fun c hc => by rw [hwhole]; exact List.mem_append_left _ hc) hnot

/-- A text that ends behind a break consists of lines. -/
theorem Complete.exists_isLines (h : Complete before) : ∃ lines, IsLines lines before := by
  induction hlength : before.length using Nat.strongRecOn generalizing before with
  | _ n ih =>
    subst hlength
    by_cases hnil : before = []
    · exact ⟨[], hnil ▸ .nil⟩
    have hline : lineAt before ++ afterLine before = before := List.takeWhile_append_dropWhile
    have hbreak : breakAt (afterLine before) ≠ [] := by
      have htext : lineAt before ++ afterLine before = before ++ [] := by rw [hline, List.append_nil]
      obtain ⟨behind, hne, -, hrest⟩ := h.exists_behind hnil (unbroken_lineAt before) htext
      obtain ⟨c, behind, rfl⟩ := List.exists_cons_of_ne_nil hne
      rw [List.append_nil] at hrest
      rw [hrest]
      exact breakAt_ne_nil (isBreak_of_mem_afterLine before c (by rw [hrest]; rfl)) behind
    obtain ⟨hform, hcut⟩ := breakAt_mem_breakForms hbreak
    have hwhole : lineAt before ++ (breakAt (afterLine before) ++ afterBreak (afterLine before)) = before := by
      rw [breakAt_append_afterBreak, hline]
    have hrest : Complete (afterBreak (afterLine before)) := by
      rw [← hwhole, ← List.append_assoc] at h
      exact h.of_append
    have hshorter : (afterBreak (afterLine before)).length < before.length := by
      have hlength := congrArg List.length hwhole
      have hpos := List.length_pos_iff.mpr hbreak
      simp only [List.length_append] at hlength
      omega
    obtain ⟨lines, hlines⟩ := ih _ hshorter hrest rfl
    have hcons := IsLines.cons (unbroken_lineAt before) hform hcut hlines
    rw [hwhole] at hcons
    exact ⟨_, hcons⟩

end

end SourceOrigin.Text
