import SourceOrigin.Proofs.Lexer.DisabledRun

/-! Lines in which the conditionals are balanced: every line that closes a conditional has one before it that opens it, and
an alternative stands inside a conditional. A skip passes such lines as a whole, at any depth. -/
namespace SourceOrigin

namespace Conditional
variable {line : Text} {lines : List Text} {depth : Nat}

/-- The first word of the directive on a line, if its first character that is not blank is a number sign. -/
def keyword? (line : Text) : Option Text :=
  match line.dropWhile Text.isBlank with
  | '#' :: rest => (Text.words rest).head?
  | _ => none

def count (keyword : String) (lines : List Text) : Nat := lines.countP (keyword? · = some keyword.toList)

/-- With `depth` conditionals open before them, the lines leave none open. No line closes a conditional that is not open, and
an alternative stands where one is open. -/
structure BalancedFrom (depth : Nat) (lines : List Text) : Prop where
  total : count "endif" lines = depth + count "if" lines
  opened : ∀ n ≤ lines.length, count "endif" (lines.take n) ≤ depth + count "if" (lines.take n)
  inside : ∀ n (h : n < lines.length),
    keyword? lines[n] = some "else".toList ∨ keyword? lines[n] = some "elif".toList →
      count "endif" (lines.take n) < depth + count "if" (lines.take n)

instance (depth : Nat) (lines : List Text) : Decidable (BalancedFrom depth lines) :=
  decidable_of_iff (_ ∧ _ ∧ _) ⟨fun ⟨total, opened, inside⟩ => ⟨total, opened, inside⟩,
    fun h => ⟨h.total, h.opened, h.inside⟩⟩

def IsBalanced (text : Text) : Prop := ∃ lines, Text.IsLines lines text ∧ BalancedFrom 0 lines

theorem count_nil (keyword : String) : count keyword [] = 0 := rfl

theorem count_cons (keyword : String) (line : Text) (lines : List Text) :
    count keyword (line :: lines) = count keyword lines + if keyword? line = some keyword.toList then 1 else 0 := by
  simp [count, List.countP_cons]

theorem count_cons_eq_add (keyword : String) (line : Text) (lines : List Text) :
    count keyword (line :: lines) = count keyword lines + count keyword [line] := by
  simp [count_cons, count_nil]

/-- What a disabled line does to the depth is told by its first word. -/
theorem depthBehind?_ofLine? (toAlternative : Bool) (depth : Nat) (line : Text) :
    Directive.depthBehind? toAlternative depth (Directive.ofLine? line) =
      if keyword? line = some "if".toList then some (depth + 1)
      else if keyword? line = some "endif".toList then (if depth = 0 then none else some (depth - 1))
      else if keyword? line = some "else".toList ∨ keyword? line = some "elif".toList then
        (if depth = 0 ∧ toAlternative = true then none else some depth)
      else some depth := by
  by_cases hsign : ∃ rest, line.dropWhile Text.isBlank = '#' :: rest
  · obtain ⟨rest, hrest⟩ := hsign
    have hword : ∀ keyword : String, keyword.toList ≠ [] →
        (keyword? line = some keyword.toList ↔ Text.firstWord rest = keyword.toList) := by
      intro keyword hne
      simp only [keyword?, hrest, Text.head?_words_eq_some_iff hne]
    have hline : Directive.ofLine? line = some (Directive.ofText rest) := by
      simp only [Directive.ofLine?, Text.trimLeft, hrest]
    rw [hline, Directive.ofText]
    simp only [hword "if" (by decide), hword "endif" (by decide), hword "else" (by decide), hword "elif" (by decide)]
    generalize Text.firstWord rest = word
    by_cases hif : word = "if".toList
    · simp [hif, Directive.depthBehind?]
    by_cases hendif : word = "endif".toList
    · simp [hendif, Directive.depthBehind?]
    by_cases helse : word = "else".toList
    · simp [helse, Directive.depthBehind?]
    by_cases helif : word = "elif".toList
    · simp [helif, Directive.depthBehind?]
    · simp only [if_neg hif, if_neg hendif, if_neg helse, if_neg helif, if_neg (not_or_intro helse helif),
        Directive.depthBehind?]
  · have hnone : keyword? line = none := by
      unfold keyword?
      split
      · next rest hrest => exact absurd ⟨rest, hrest⟩ hsign
      · rfl
    have hline : Directive.ofLine? line = none := by
      unfold Directive.ofLine?
      split
      · next rest hrest => exact absurd ⟨rest, hrest⟩ hsign
      · rfl
    simp [hnone, hline, Directive.depthBehind?]

private theorem BalancedFrom.of_cons {next : Nat} (h : BalancedFrom depth (line :: lines))
    (hnext : next + count "endif" [line] = depth + count "if" [line]) : BalancedFrom next lines := by
  constructor
  · have htotal := h.total
    rw [count_cons_eq_add, count_cons_eq_add "if"] at htotal
    omega
  · intro n hn
    have hopened := h.opened (n + 1) (Nat.succ_le_succ hn)
    rw [List.take_succ_cons, count_cons_eq_add, count_cons_eq_add "if"] at hopened
    omega
  · intro n hn halternative
    have hinside := h.inside (n + 1) (Nat.succ_lt_succ hn) halternative
    rw [List.take_succ_cons, count_cons_eq_add, count_cons_eq_add "if"] at hinside
    omega

/-- A line of balanced lines does not end the disabled run that it belongs to, and the lines behind it are balanced. -/
theorem BalancedFrom.tail (h : BalancedFrom depth (line :: lines)) : ∃ next, BalancedFrom next lines ∧
    ∀ toAlternative outer, Directive.depthBehind? toAlternative (outer + depth) (Directive.ofLine? line) =
      some (outer + next) := by
  simp only [depthBehind?_ofLine?]
  have hopened := h.opened 1 (Nat.succ_le_succ (Nat.zero_le _))
  have hinside := h.inside 0 (Nat.succ_pos _)
  rw [List.take_succ_cons, List.take_zero] at hopened
  by_cases hif : keyword? line = some "if".toList
  · refine ⟨depth + 1, h.of_cons (by simp [count_cons, count_nil, hif]), fun _ outer => ?_⟩
    rw [if_pos hif, Nat.add_assoc]
  by_cases hendif : keyword? line = some "endif".toList
  · obtain ⟨next, rfl⟩ : ∃ next, depth = next + 1 := by
      simp only [count_cons, count_nil, if_pos hendif, if_neg hif] at hopened
      exact ⟨depth - 1, by omega⟩
    refine ⟨next, h.of_cons (by simp [count_cons, count_nil, hendif]), fun _ outer => ?_⟩
    rw [if_neg hif, if_pos hendif, if_neg (by omega), ← Nat.add_assoc, Nat.add_sub_cancel]
  refine ⟨depth, h.of_cons (by simp only [count_cons, count_nil, if_neg hif, if_neg hendif]), fun _ outer => ?_⟩
  rw [if_neg hif, if_neg hendif]
  by_cases halternative : keyword? line = some "else".toList ∨ keyword? line = some "elif".toList
  · have hdepth : 0 < depth := by simpa [count_nil] using hinside halternative
    rw [if_pos halternative, if_neg (by omega)]
  · rw [if_neg halternative]

private theorem BalancedFrom.depth_eq_zero (h : BalancedFrom depth []) : depth = 0 := by
  have htotal := h.total
  simp only [count_nil] at htotal
  omega

end Conditional

/-- A disabled line with its break is skipped in front of what is skipped behind it. -/
theorem Skips.cons_line {toAlternative : Bool} {depth next : Nat} {line brk rest skipped left : Text}
    (hline : line.Unbroken) (hform : brk ∈ Text.breakForms) (hcut : Text.CleanCut brk rest)
    (hnext : Directive.depthBehind? toAlternative depth (Directive.ofLine? line) = some next)
    (h : Skips toAlternative next rest skipped left) :
    Skips toAlternative depth (line ++ (brk ++ rest)) (line ++ (brk ++ skipped)) left :=
  (Skips.cons_line_iff hline hform hcut).mpr (.inr ⟨next, skipped, hnext, rfl, h⟩)

/-- A skip passes balanced lines as a whole. -/
theorem Skips.passes {toAlternative : Bool} {outer depth : Nat} {lines : List Text} {text rest skipped left : Text}
    (hlines : Text.IsLines lines text) (hbalanced : Conditional.BalancedFrom depth lines) (hcut : Text.CleanCut text rest)
    (h : Skips toAlternative outer rest skipped left) :
    Skips toAlternative (outer + depth) (text ++ rest) (text ++ skipped) left := by
  induction hlines generalizing depth with
  | nil =>
    rw [hbalanced.depth_eq_zero]
    exact h
  | @cons line brk text lines hline hform hclean _ ih =>
    obtain ⟨next, hnext, hdepth⟩ := hbalanced.tail
    have hrest : Text.CleanCut brk (text ++ rest) := hclean.append_of_cut hcut.of_append_left
    rw [List.append_assoc, List.append_assoc, List.append_assoc, List.append_assoc]
    exact .cons_line hline hform hrest (hdepth toAlternative outer) (ih hnext hcut.of_append_left.of_append_left)

end SourceOrigin
