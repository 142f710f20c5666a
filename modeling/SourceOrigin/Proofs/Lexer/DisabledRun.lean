import SourceOrigin.Proofs.Text.Break
import SourceOrigin.Source.Directive

/-! Disabled runs as sequences of lines: each line belongs to the run with its break, or ends it. What stands behind
the line that ends a run has no influence on the run. -/
namespace SourceOrigin

def Directive.depthBehind? (toAlternative : Bool) (depth : Nat) : Option Directive → Option Nat
  | some (.opening _) => some (depth + 1)
  | some .closing => if depth = 0 then none else some (depth - 1)
  | some (.alternative _) => if depth = 0 && toAlternative then none else some depth
  | _ => some depth

/-- The skipped lines of a text and what is left of it, from a line on with so many conditionals open that were opened
inside the run. -/
inductive Skips (toAlternative : Bool) : Nat → Text → Text → Text → Prop where
  | done (depth : Nat) : Skips toAlternative depth [] [] []
  | stops {depth : Nat} {left : Text} : left ≠ [] →
      Directive.depthBehind? toAlternative depth (Directive.ofLine? (Text.lineAt left)) = none →
      Skips toAlternative depth left [] left
  | line {depth next : Nat} {text skipped left : Text} : text ≠ [] →
      Directive.depthBehind? toAlternative depth (Directive.ofLine? (Text.lineAt text)) = some next →
      Skips toAlternative next (Text.afterBreak (Text.afterLine text)) skipped left →
      Skips toAlternative depth text (Text.lineAt text ++ (Text.breakAt (Text.afterLine text) ++ skipped)) left

/-- One line of a disabled run: it ends the run, or belongs to it with its line break. -/
theorem disabledLength_cons (toAlternative : Bool) (before depth : Nat) {text : Text} (h : text ≠ []) :
    disabledLength toAlternative before depth text =
      match Directive.depthBehind? toAlternative depth (Directive.ofLine? (Text.lineAt text)) with
      | none => before
      | some depth =>
        disabledLength toAlternative
          (before + (Text.lineAt text).length + (Text.breakAt (Text.afterLine text)).length) depth
          (Text.afterBreak (Text.afterLine text)) := by
  obtain ⟨c, rest, rfl⟩ := List.exists_cons_of_ne_nil h
  rw [disabledLength]
  cases Directive.ofLine? (Text.lineAt (c :: rest)) with
  | none => rfl
  | some directive =>
    cases directive with
    | opening condition => rfl
    | alternative condition =>
      simp only [Directive.depthBehind?]
      split <;> rfl
    | closing =>
      simp only [Directive.depthBehind?]
      split <;> rfl
    | other => rfl

theorem exists_skips (toAlternative : Bool) (depth : Nat) (text : Text) :
    ∃ skipped left, Skips toAlternative depth text skipped left := by
  induction h : text.length using Nat.strongRecOn generalizing depth text with
  | _ n ih =>
    subst h
    cases text with
    | nil => exact ⟨[], [], .done depth⟩
    | cons c rest =>
      cases hnext : Directive.depthBehind? toAlternative depth (Directive.ofLine? (Text.lineAt (c :: rest))) with
      | none => exact ⟨[], c :: rest, .stops (List.cons_ne_nil _ _) hnext⟩
      | some next =>
        obtain ⟨skipped, left, hskips⟩ := ih _ (length_afterBreak_lt c rest) next _ rfl
        exact ⟨_, left, .line (List.cons_ne_nil _ _) hnext hskips⟩

namespace Skips
variable {toAlternative : Bool} {depth : Nat} {text skipped left after : Text}

theorem append_eq (h : Skips toAlternative depth text skipped left) : skipped ++ left = text := by
  induction h with
  | done => rfl
  | stops => rfl
  | line _ _ _ ih =>
    rw [List.append_assoc, List.append_assoc, ih, Text.breakAt_append_afterBreak, Text.lineAt_append_afterLine]

theorem disabledLength_eq (h : Skips toAlternative depth text skipped left) (before : Nat) :
    disabledLength toAlternative before depth text = before + skipped.length := by
  induction h generalizing before with
  | done => simp [disabledLength]
  | stops hne hstop => simp [disabledLength_cons _ _ _ hne, hstop]
  | line hne hnext _ ih =>
    rw [disabledLength_cons _ _ _ hne, hnext]
    dsimp only
    rw [ih]
    simp only [List.length_append]
    omega

private theorem exists_stop (h : Skips toAlternative depth text skipped left) (hne : left ≠ []) :
    ∃ depth, Directive.depthBehind? toAlternative depth (Directive.ofLine? (Text.lineAt left)) = none := by
  induction h with
  | done => exact absurd rfl hne
  | stops _ hstop => exact ⟨_, hstop⟩
  | line _ _ _ ih => exact ih hne

/-- A directive ends the run, if the text does not. -/
theorem ofLine?_ne_none (h : Skips toAlternative depth text skipped left) (hne : left ≠ []) :
    Directive.ofLine? (Text.lineAt left) ≠ none := by
  obtain ⟨depth, hstop⟩ := h.exists_stop hne
  intro hnone
  simp [hnone, Directive.depthBehind?] at hstop

/-- A run that skips something ends behind a whole line break, unless it ends with the text. -/
theorem ends (h : Skips toAlternative depth text skipped left) (hleft : left ≠ []) (hskipped : skipped ≠ []) :
    (∀ c ∈ skipped.getLast?, Text.isBreak c = true) ∧ Text.CleanCut skipped left := by
  induction h with
  | done => exact absurd rfl hleft
  | stops => exact absurd rfl hskipped
  | @line depth next text skipped left htext hnext hskips ih =>
    suffices hends : Text.breakAt (Text.afterLine text) ++ skipped ≠ [] ∧
        (∀ c ∈ (Text.breakAt (Text.afterLine text) ++ skipped).getLast?, Text.isBreak c = true) ∧
        Text.CleanCut (Text.breakAt (Text.afterLine text) ++ skipped) left by
      refine ⟨?_, hends.2.2.append_left hends.1 _⟩
      rw [List.getLast?_append_of_ne_nil _ hends.1]
      exact hends.2.1
    by_cases hmore : skipped = []
    · -- What is left stands right behind the break, so there is one.
      obtain rfl : Text.afterBreak (Text.afterLine text) = left := by rw [← hskips.append_eq, hmore, List.nil_append]
      have hbreak := Text.breakAt_afterLine_ne_nil hleft
      obtain ⟨hform, hcut⟩ := Text.breakAt_mem_breakForms hbreak
      rw [hmore, List.append_nil]
      exact ⟨hbreak, fun c hc => Text.isBreak_of_mem_breakForms hform c (List.mem_of_getLast? hc), hcut⟩
    · obtain ⟨hlast, hcut⟩ := ih hleft hmore
      refine ⟨fun hnil => hmore (List.append_eq_nil_iff.mp hnil).2, ?_, hcut.append_left hmore _⟩
      rw [List.getLast?_append_of_ne_nil _ hmore]
      exact hlast

/-- The skip looks no further than the line that ends it. -/
theorem replace (h : Skips toAlternative depth text skipped left) (hne : left ≠ [])
    (hhead : after.head? = left.head?) (hline : Text.lineAt after = Text.lineAt left) :
    Skips toAlternative depth (skipped ++ after) skipped after := by
  have hafter : after ≠ [] := by
    rintro rfl
    exact hne (List.head?_eq_none_iff.mp hhead.symm)
  induction h with
  | done => exact absurd rfl hne
  | stops _ hstop => exact .stops hafter (hline ▸ hstop)
  | @line depth next text skipped left htext hnext hskips ih =>
    have hrest : Text.afterBreak (Text.afterLine text) = skipped ++ left := hskips.append_eq.symm
    have hbegin : (skipped ++ after).head? = (Text.afterBreak (Text.afterLine text)).head? := by
      rw [hrest]
      cases skipped with
      | nil => exact hhead
      | cons c skipped => rfl
    obtain ⟨hbreakAt, hafterBreak⟩ := Text.breakAt_append (.inr hbegin)
    -- What stands behind the line begins alike, so the line ends at its break in both texts.
    have hbreak : (Text.breakAt (Text.afterLine text) ++ (skipped ++ after)).head? = (Text.afterLine text).head? := by
      rw [List.head?_append, hbegin, ← List.head?_append, Text.breakAt_append_afterBreak]
    obtain ⟨hlineAt, hafterLine⟩ := Text.line_append (Text.unbroken_lineAt text)
      (hbreak ▸ Text.isBreak_of_mem_afterLine text)
    rw [List.append_assoc, List.append_assoc]
    generalize hwhole : Text.lineAt text ++ (Text.breakAt (Text.afterLine text) ++ (skipped ++ after)) = whole
      at hlineAt hafterLine
    have hnonempty : whole ≠ [] := by simp [← hwhole, hafter]
    have hskips : Skips toAlternative depth whole _ after :=
      .line hnonempty (hlineAt ▸ hnext) (by
        rw [hafterLine, hafterBreak]
        exact ih hne hhead hline)
    rwa [hlineAt, hafterLine, hbreakAt] at hskips

end Skips

/-- A skip that starts before a line ends there, or takes the line with its break. -/
theorem Skips.line_iff {toAlternative : Bool} {depth : Nat} {line after skipped left : Text} (hline : line.Unbroken)
    (hafter : ∀ c ∈ after.head?, Text.isBreak c = true) (hne : line ++ after ≠ []) :
    Skips toAlternative depth (line ++ after) skipped left ↔
      Directive.depthBehind? toAlternative depth (Directive.ofLine? line) = none ∧ skipped = [] ∧ left = line ++ after ∨
        ∃ next behind, Directive.depthBehind? toAlternative depth (Directive.ofLine? line) = some next ∧
          skipped = line ++ (Text.breakAt after ++ behind) ∧ Skips toAlternative next (Text.afterBreak after) behind left := by
  obtain ⟨hlineAt, hafterLine⟩ := Text.line_append hline hafter
  constructor
  · intro h
    generalize hwhole : line ++ after = whole at h hlineAt hafterLine hne
    cases h with
    | done => exact absurd rfl hne
    | stops _ hstop => exact .inl ⟨hlineAt ▸ hstop, rfl, rfl⟩
    | line _ hnext hskips =>
      rw [hafterLine] at hskips
      exact .inr ⟨_, _, hlineAt ▸ hnext, by rw [hlineAt, hafterLine], hskips⟩
  · rintro (⟨hstop, rfl, rfl⟩ | ⟨next, behind, hnext, rfl, hskips⟩)
    · exact .stops hne (hlineAt.symm ▸ hstop)
    · have hwhole : Skips toAlternative depth (line ++ after) _ left :=
        .line hne (hlineAt.symm ▸ hnext) (hafterLine.symm ▸ hskips)
      rwa [hlineAt, hafterLine] at hwhole

/-- The same for a line with a break behind it. -/
theorem Skips.cons_line_iff {toAlternative : Bool} {depth : Nat} {line brk rest skipped left : Text} (hline : line.Unbroken)
    (hform : brk ∈ Text.breakForms) (hcut : Text.CleanCut brk rest) :
    Skips toAlternative depth (line ++ (brk ++ rest)) skipped left ↔
      Directive.depthBehind? toAlternative depth (Directive.ofLine? line) = none ∧ skipped = [] ∧
          left = line ++ (brk ++ rest) ∨
        ∃ next behind, Directive.depthBehind? toAlternative depth (Directive.ofLine? line) = some next ∧
          skipped = line ++ (brk ++ behind) ∧ Skips toAlternative next rest behind left := by
  have hne := Text.ne_nil_of_mem_breakForms hform
  have hhead : ∀ c ∈ (brk ++ rest).head?, Text.isBreak c = true := by
    rw [List.head?_append_of_ne_nil _ hne]
    exact fun c hc => Text.isBreak_of_mem_breakForms hform c (List.mem_of_head? hc)
  obtain ⟨hbreakAt, hafterBreak⟩ := Text.breakAt_form hform hcut
  rw [Skips.line_iff hline hhead (by simp [hne]), hbreakAt, hafterBreak]

end SourceOrigin
