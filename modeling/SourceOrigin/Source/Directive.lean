import SourceOrigin.Text.LineBreak

/-! Conditional directives: reading them, the stack of open conditionals, and the length of the lines
that a condition known to fail disables. -/
namespace SourceOrigin

/-- What the text of a condition tells about its value. Only the words `true` and `false` tell
anything; every other condition depends on symbols that the host defines. -/
inductive Condition where
  | holds
  | fails
  | symbolic
  deriving DecidableEq, Repr

def Condition.ofText (text : Text) : Condition :=
  let word := Text.firstWord text
  if word = "true".toList then .holds else if word = "false".toList then .fails else .symbolic

inductive Directive where
  | opening (condition : Condition)
  | alternative (condition : Condition)
  | closing
  | other
  deriving DecidableEq, Repr

namespace Directive

/-- The directive written behind a number sign. The last alternative of a conditional needs no
condition, so it holds. -/
def ofText (text : Text) : Directive :=
  let keyword := Text.firstWord text
  let condition := Condition.ofText (Text.afterWord text)
  if keyword = "if".toList then .opening condition
  else if keyword = "elif".toList then .alternative condition
  else if keyword = "else".toList then .alternative .holds
  else if keyword = "endif".toList then .closing
  else .other

/-- The directive on a line, if the line's first character that is not blank is a number sign. -/
def ofLine? (line : Text) : Option Directive :=
  match Text.trimLeft line with
  | '#' :: rest => some (ofText rest)
  | _ => none

/-- How the lines after a directive are read. Disabled lines end at the directive that closes the
conditional, and at the next alternative as well if that may still be live. -/
inductive Continuation where
  | live
  | disabled (toAlternative : Bool)
  deriving DecidableEq, Repr

def Continuation.ofCondition : Condition → Continuation
  | .fails => .disabled true
  | _ => .live

/-- Brings the stack of open conditionals up to date. An entry tells whether a branch of that
conditional is live already; `symbolic` means that the host decides. An alternative or a closing
directive outside every conditional changes nothing. -/
def track : Directive → List Condition → List Condition × Continuation
  | .opening condition, stack => (condition :: stack, .ofCondition condition)
  | .alternative _, .holds :: stack => (.holds :: stack, .disabled false)
  | .alternative condition, .fails :: stack => (condition :: stack, .ofCondition condition)
  | .closing, _ :: stack => (stack, .live)
  | _, stack => (stack, .live)

end Directive

theorem length_afterBreak_lt (c : Char) (rest : Text) :
    (Text.afterBreak (Text.afterLine (c :: rest))).length < (c :: rest).length := by
  have h : (Text.afterLine (c :: rest)).length ≤ (c :: rest).length :=
    (List.dropWhile_suffix _).sublist.length_le
  rw [List.length_drop]
  by_cases hc : Text.isBreak c
  · have hline : Text.afterLine (c :: rest) = c :: rest := by simp [Text.afterLine, hc]
    have hpos : 0 < (Text.breakAt (c :: rest)).length := by
      unfold Text.breakAt
      split <;> simp_all
    rw [hline]
    simp only [List.length_cons]
    omega
  · have hrest : (Text.afterLine (c :: rest)).length ≤ rest.length := by
      simp only [Text.afterLine, List.dropWhile_cons, hc]
      exact (List.dropWhile_suffix _).sublist.length_le
    simp only [List.length_cons]
    omega

/-- Number of characters that belong to a disabled run, added to those of the lines before. The text
starts at the beginning of a line, and `depth` conditionals opened inside the run are still open. The
run ends before the closing directive at depth zero, or before an alternative there if `toAlternative`
is set; without one it takes the whole text. -/
def disabledLength (toAlternative : Bool) (before depth : Nat) : Text → Nat
  | [] => before
  | c :: rest =>
    let line := Text.lineAt (c :: rest)
    let next := Text.afterLine (c :: rest)
    let after := before + line.length + (Text.breakAt next).length
    match Directive.ofLine? line with
    | some (.opening _) => disabledLength toAlternative after (depth + 1) (Text.afterBreak next)
    | some .closing =>
      if depth = 0 then before
      else disabledLength toAlternative after (depth - 1) (Text.afterBreak next)
    | some (.alternative _) =>
      if depth = 0 && toAlternative then before
      else disabledLength toAlternative after depth (Text.afterBreak next)
    | _ => disabledLength toAlternative after depth (Text.afterBreak next)
termination_by text => text.length
decreasing_by all_goals exact length_afterBreak_lt c rest

end SourceOrigin
