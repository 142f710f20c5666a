import SourceOrigin.Proofs.Conditional.Balance

/-! Where a disabled run ends. The lines up to its end leave no conditional open that they open, and close none that they
do not; of all the lines that may end the run in this sense it is the first. -/
namespace SourceOrigin

/-- The position is within the text, at its start or behind a whole line break. -/
structure Text.StartsLine (text : Text) (position : Nat) : Prop where
  within : position ≤ text.length
  complete : Text.Complete (text.take position)
  cleanCut : Text.CleanCut (text.take position) (text.drop position)

namespace Conditional
variable {toAlternative : Bool} {depth next : Nat} {line front rest text skipped left : Text} {lines : List Text}

/-- The line ends a disabled run, if it does not belong to a conditional that the run holds. -/
def EndsRun (toAlternative : Bool) (line : Text) : Prop :=
  keyword? line = some "endif".toList ∨
    toAlternative = true ∧ (keyword? line = some "else".toList ∨ keyword? line = some "elif".toList)

structure NestedFrom (depth : Nat) (lines : List Text) : Prop where
  total : count "endif" lines = depth + count "if" lines
  opened : ∀ n ≤ lines.length, count "endif" (lines.take n) ≤ depth + count "if" (lines.take n)

/-- A disabled run from the position `start` may end in front of the line at `stop`. -/
structure MayEnd (toAlternative : Bool) (text : Text) (start stop : Nat) : Prop where
  startsLine : Text.StartsLine text stop
  start_le : start ≤ stop
  endsRun : EndsRun toAlternative (Text.lineAt (text.drop stop))
  nested : ∃ lines, Text.IsLines lines ((text.take stop).drop start) ∧ NestedFrom 0 lines

private theorem not_endsRun_nil : ¬ EndsRun toAlternative [] := by simp [EndsRun, keyword?]

/-- A line ends a run by its first word, and at depth zero only. -/
theorem depthBehind?_eq_none_iff : Directive.depthBehind? toAlternative depth (Directive.ofLine? line) = none ↔
    depth = 0 ∧ EndsRun toAlternative line := by
  rw [depthBehind?_ofLine?, EndsRun]
  by_cases hif : keyword? line = some "if".toList
  · simp [hif]
  by_cases hendif : keyword? line = some "endif".toList
  · simp [hendif]
  by_cases halternative : keyword? line = some "else".toList ∨ keyword? line = some "elif".toList
  · simp only [if_neg hif, hendif, halternative]
    simp
  · simp only [if_neg hif, hendif, halternative]
    simp

private theorem count_of_depthBehind? (hnext : Directive.depthBehind? toAlternative depth (Directive.ofLine? line) = some next) :
    next + count "endif" [line] = depth + count "if" [line] := by
  rw [depthBehind?_ofLine?] at hnext
  simp only [count_cons, count_nil, Nat.zero_add]
  by_cases hif : keyword? line = some "if".toList
  · rw [if_pos hif] at hnext
    obtain rfl := Option.some.inj hnext
    simp [hif]
  by_cases hendif : keyword? line = some "endif".toList
  · rw [if_neg hif, if_pos hendif] at hnext
    split at hnext
    · simp at hnext
    · obtain rfl := Option.some.inj hnext
      rw [if_pos hendif, if_neg hif]
      omega
  · rw [if_neg hif, if_neg hendif] at hnext
    rw [if_neg hif, if_neg hendif]
    split at hnext
    · split at hnext
      · simp at hnext
      · exact (Option.some.inj hnext).symm
    · exact (Option.some.inj hnext).symm

private theorem nestedFrom_nil : NestedFrom depth [] ↔ depth = 0 := by
  refine ⟨fun h => ?_, fun h => ⟨by simp [count_nil, h], by simp [count_nil]⟩⟩
  have htotal := h.total
  simp only [count_nil] at htotal
  omega

private theorem nestedFrom_cons (hnext : Directive.depthBehind? toAlternative depth (Directive.ofLine? line) = some next) :
    NestedFrom depth (line :: lines) ↔ NestedFrom next lines := by
  have hline := count_of_depthBehind? hnext
  constructor
  · intro h
    refine ⟨?_, fun n hn => ?_⟩
    · have htotal := h.total
      rw [count_cons_eq_add, count_cons_eq_add "if"] at htotal
      omega
    · have hopened := h.opened (n + 1) (Nat.succ_le_succ hn)
      rw [List.take_succ_cons, count_cons_eq_add, count_cons_eq_add "if"] at hopened
      omega
  · intro h
    refine ⟨?_, fun n hn => ?_⟩
    · have htotal := h.total
      rw [count_cons_eq_add, count_cons_eq_add "if"]
      omega
    · cases n with
      | zero => simp [count_nil]
      | succ n =>
        have hopened := h.opened n (Nat.le_of_succ_le_succ hn)
        rw [List.take_succ_cons, count_cons_eq_add, count_cons_eq_add "if"]
        omega

end Conditional

namespace Skips
open Conditional
variable {toAlternative : Bool} {depth : Nat} {front rest text skipped left : Text} {lines : List Text}

/-- What is skipped in front of something left consists of lines that are nested, and the line behind them ends the run. -/
theorem exists_nested (h : Skips toAlternative depth text skipped left) (hne : left ≠ []) :
    ∃ lines, Text.IsLines lines skipped ∧ NestedFrom depth lines ∧ EndsRun toAlternative (Text.lineAt left) := by
  induction h with
  | done => exact absurd rfl hne
  | stops _ hstop =>
    obtain ⟨hdepth, hends⟩ := depthBehind?_eq_none_iff.mp hstop
    exact ⟨[], .nil, nestedFrom_nil.mpr hdepth, hends⟩
  | @line depth next text skipped left htext hnext hskips ih =>
    obtain ⟨lines, hlines, hnested, hends⟩ := ih hne
    -- Something is left behind the line, so it ends at a break.
    have hmore : Text.afterBreak (Text.afterLine text) ≠ [] := by
      rw [← hskips.append_eq]
      exact fun hnil => hne (List.append_eq_nil_iff.mp hnil).2
    obtain ⟨hform, hcut⟩ := Text.breakAt_mem_breakForms (Text.breakAt_afterLine_ne_nil hmore)
    rw [← hskips.append_eq] at hcut
    exact ⟨_, .cons (Text.unbroken_lineAt text) hform hcut.of_append_right hlines, (nestedFrom_cons hnext).mpr hnested, hends⟩

private theorem length_le_of_nested (hlines : Text.IsLines lines front) (hnested : NestedFrom depth lines)
    (hcut : Text.CleanCut front rest) (hends : EndsRun toAlternative (Text.lineAt rest))
    (h : Skips toAlternative depth (front ++ rest) skipped left) : skipped.length ≤ front.length := by
  induction hlines generalizing depth skipped with
  | nil =>
    have hstop : Directive.depthBehind? toAlternative depth (Directive.ofLine? (Text.lineAt rest)) = none :=
      depthBehind?_eq_none_iff.mpr ⟨nestedFrom_nil.mp hnested, hends⟩
    rw [List.nil_append] at h
    cases h with
    | done | stops => exact Nat.le_refl 0
    | line _ hnext => simp [hstop] at hnext
  | @cons line brk text lines hline hform hclean hlines ih =>
    have hrest : Text.CleanCut brk (text ++ rest) := hclean.append_of_cut hcut.of_append_left
    rw [List.append_assoc, List.append_assoc] at h
    obtain ⟨-, rfl, -⟩ | ⟨next, behind, hnext, rfl, hskips⟩ := (Skips.cons_line_iff hline hform hrest).mp h
    · exact Nat.zero_le _
    · have hle := ih ((nestedFrom_cons hnext).mp hnested) hcut.of_append_left.of_append_left hskips
      simp only [List.length_append]
      omega

end Skips

namespace Conditional
variable {toAlternative : Bool} {text : Text} {start : Nat}

private theorem MayEnd.lt_length {stop : Nat} (h : MayEnd toAlternative text start stop) : stop < text.length := by
  by_contra hle
  have hends := h.endsRun
  rw [List.drop_eq_nil_of_le (Nat.not_lt.mp hle)] at hends
  exact not_endsRun_nil hends

/-- A skip from the start of a line, with something left, ends in front of a line where it may. -/
theorem mayEnd_of_skips {skipped left : Text} (hstart : Text.StartsLine text start)
    (h : Skips toAlternative 0 (text.drop start) skipped left) (hne : left ≠ []) :
    MayEnd toAlternative text start (start + skipped.length) := by
  obtain ⟨lines, hlines, hnested, hends⟩ := h.exists_nested hne
  have hwhole := h.append_eq
  have htake : text.take (start + skipped.length) = text.take start ++ skipped := by
    rw [List.take_add, ← hwhole, List.take_left]
  have hdrop : text.drop (start + skipped.length) = left := by
    rw [← List.drop_drop, ← hwhole, List.drop_left]
  refine ⟨⟨?_, ?_, ?_⟩, Nat.le_add_right _ _, hdrop ▸ hends, lines, ?_, hnested⟩
  · have hlength := congrArg List.length hwhole
    have hwithin := hstart.within
    rw [List.length_append, List.length_drop] at hlength
    omega
  · rw [htake]
    by_cases hnil : skipped = []
    · rw [hnil, List.append_nil]
      exact hstart.complete
    · rw [Text.Complete, List.getLast?_append_of_ne_nil _ hnil]
      exact (h.ends hne hnil).1
  · rw [htake, hdrop]
    by_cases hnil : skipped = []
    · rw [hnil, List.nil_append] at hwhole
      rw [hnil, List.append_nil, hwhole]
      exact hstart.cleanCut
    · exact (h.ends hne hnil).2.append_left hnil _
  · have hlength : (text.take start).length = start := List.length_take_of_le hstart.within
    rwa [htake, List.drop_left' hlength]

/-- A skip ends no later than in front of a line where it may. -/
theorem MayEnd.skips_le {stop : Nat} {skipped left : Text} (hend : MayEnd toAlternative text start stop)
    (h : Skips toAlternative 0 (text.drop start) skipped left) : start + skipped.length ≤ stop := by
  obtain ⟨lines, hlines, hnested⟩ := hend.nested
  have hstop : (text.take stop).length = stop := List.length_take_of_le hend.startsLine.within
  have hle : start ≤ (text.take stop).length := hstop.symm ▸ hend.start_le
  have hcut : Text.CleanCut ((text.take stop).drop start) (text.drop stop) := by
    have hcut := hend.startsLine.cleanCut
    rw [← List.take_append_drop start (text.take stop)] at hcut
    exact hcut.of_append_left
  have hsplit : text.drop start = (text.take stop).drop start ++ text.drop stop := by
    rw [← List.drop_append_of_le_length hle, List.take_append_drop]
  rw [hsplit] at h
  have hlength := h.length_le_of_nested hlines hnested hcut hend.endsRun
  rw [List.length_drop, hstop] at hlength
  have hstart := hend.start_le
  omega

/-- A disabled run from the start of a line ends at the first place where it may end, and takes the whole text if there is
none. -/
theorem disabledLength_first (toAlternative : Bool) (hstart : Text.StartsLine text start) :
    let stop := disabledLength toAlternative start 0 (text.drop start)
    ((∃ position, MayEnd toAlternative text start position) →
      MayEnd toAlternative text start stop ∧ ∀ position, MayEnd toAlternative text start position → stop ≤ position) ∧
      ((¬ ∃ position, MayEnd toAlternative text start position) → stop = text.length) := by
  intro stop
  obtain ⟨skipped, left, hskips⟩ := exists_skips toAlternative 0 (text.drop start)
  have hstop : stop = start + skipped.length := hskips.disabledLength_eq start
  have hlength := congrArg List.length hskips.append_eq
  have hwithin := hstart.within
  rw [List.length_append, List.length_drop] at hlength
  rw [hstop]
  constructor
  · rintro ⟨position, hend⟩
    refine ⟨mayEnd_of_skips hstart hskips ?_, fun position hend => hend.skips_le hskips⟩
    rintro rfl
    have hle := hend.skips_le hskips
    have hlt := hend.lt_length
    rw [List.length_nil] at hlength
    omega
  · intro hnever
    have hleft : left = [] := by
      by_contra hne
      exact hnever ⟨_, mayEnd_of_skips hstart hskips hne⟩
    rw [hleft, List.length_nil] at hlength
    omega

/-- The run passes the conditional that it holds, though that is cut by a return and a feed of its own, and ends at the
alternative behind; a run that may not end there goes on to the end of the text. -/
theorem disabledLength_first_nested :
    let text := "#if false\r\n # if A\r//\n\t#else\u2028#endif B\r\n#elif\n".toList
    Text.StartsLine text 11 ∧
      (MayEnd true text 11 39 ∧ ∀ position, MayEnd true text 11 position → 39 ≤ position) ∧
      disabledLength false 11 0 (text.drop 11) = text.length := by
  intro text
  have hstart : Text.StartsLine text 11 := ⟨by decide, by decide, by decide⟩
  have hstop : disabledLength true 11 0 (text.drop 11) = 39 := by decide +kernel
  have hfirst := disabledLength_first true hstart
  rw [hstop] at hfirst
  refine ⟨hstart, hfirst.1 ?_, by decide +kernel⟩
  by_contra hnever
  exact absurd (hfirst.2 hnever) (by decide)

end Conditional
end SourceOrigin
