import SourceOrigin.Proofs.Command.Toolkit
import SourceOrigin.Proofs.FileTree.NormalForm

/-! Lines of the output and of the errors. They are seen one by one, on a terminal or not (`onOutput_unlines`), and the line of
a verdict is seen with its label and with what is seen of the path. -/
namespace SourceOrigin.Command

private theorem unlines_append (lines others : List Text) : unlines (lines ++ others) = unlines lines ++ unlines others :=
  List.flatMap_append

/-- Cutting the lines apart gives them back, and an empty piece behind the last of them. -/
theorem splitOn_unlines {lines : List Text} (h : ∀ line ∈ lines, '\n' ∉ line) :
    Text.splitOn '\n' (unlines lines) = lines ++ [[]] := by
  have hjoined : unlines lines = List.intercalate ['\n'] (lines ++ [[]]) := by
    induction lines with
    | nil => rfl
    | cons line lines ih =>
      have hrest := ih fun other hmem => h other (List.mem_cons_of_mem line hmem)
      rw [unlines, List.flatMap_cons, ← unlines, hrest]
      cases lines with
      | nil => simp
      | cons next lines => simp only [List.cons_append, List.intercalate_cons_cons]
  rw [Text.splitOn_eq, hjoined, List.splitOn_intercalate]
  · intro line hmem
    rcases List.mem_append.mp hmem with hmem | hmem
    · exact h line hmem
    · rw [List.mem_singleton.mp hmem]
      exact List.not_mem_nil
  · simp

private theorem plain_unlines (lines : List Text) : Text.plain (unlines lines) = unlines (lines.map Text.plain) := by
  induction lines with
  | nil => exact Text.plain_nil
  | cons line lines ih =>
    have hcons (line : Text) (lines : List Text) : unlines (line :: lines) = line ++ '\n' :: unlines lines := by
      simp [unlines]
    rw [hcons, Text.plain_append_feed, ih, List.map_cons, hcons]

def seen (terminal : Bool) (text : Text) : Text := if terminal then text else Text.plain text

private theorem seen_unlines (terminal : Bool) (lines : List Text) :
    seen terminal (unlines lines) = unlines (lines.map (seen terminal)) := by
  cases terminal with
  | false => exact plain_unlines lines
  | true => exact congrArg unlines (List.map_id lines).symm

private theorem seen_append_of_not_mem (terminal : Bool) {front : Text} (h : '\x1b' ∉ front) (text : Text) :
    seen terminal (front ++ text) = front ++ seen terminal text := by
  cases terminal with
  | false => exact Text.plain_append_of_not_mem h text
  | true => rfl

section
variable {world : World} (h : world.toolkit.IsFaithful)
include h

private theorem World.onOutput_eq : world.onOutput = seen world.terminalOutput := by
  funext text
  rw [World.onOutput, seen, h.plain_eq]

private theorem World.onErrors_eq : world.onErrors = seen world.terminalErrors := by
  funext text
  rw [World.onErrors, seen, h.plain_eq]

theorem World.onOutput_unlines (lines : List Text) :
    world.onOutput (unlines lines) = unlines (lines.map world.onOutput) := by
  rw [World.onOutput_eq h, seen_unlines]

theorem World.onErrors_unlines (lines : List Text) :
    world.onErrors (unlines lines) = unlines (lines.map world.onErrors) := by
  rw [World.onErrors_eq h, seen_unlines]

theorem World.onOutput_append (lines others : List Text) :
    world.onOutput (unlines (lines ++ others)) = world.onOutput (unlines lines) ++ world.onOutput (unlines others) := by
  rw [World.onOutput_unlines h, List.map_append, unlines_append, World.onOutput_unlines h, World.onOutput_unlines h]

theorem World.onErrors_append (lines others : List Text) :
    world.onErrors (unlines (lines ++ others)) = world.onErrors (unlines lines) ++ world.onErrors (unlines others) := by
  rw [World.onErrors_unlines h, List.map_append, unlines_append, World.onErrors_unlines h, World.onErrors_unlines h]

theorem World.onOutput_append_of_not_mem {front : Text} (hfront : '\x1b' ∉ front) (text : Text) :
    world.onOutput (front ++ text) = front ++ world.onOutput text := by
  rw [World.onOutput_eq h, seen_append_of_not_mem _ hfront]

theorem World.onOutput_eq_self {text : Text} (htext : '\x1b' ∉ text) : world.onOutput text = text := by
  rw [World.onOutput_eq h, seen, Text.plain_eq_self htext, ite_self]

theorem World.onOutput_sublist (text : Text) : (world.onOutput text).Sublist text := by
  rw [World.onOutput_eq h, seen]
  split
  · exact .refl text
  · exact Text.plain_sublist text

/-- A label is seen as it is. -/
theorem World.onOutput_verdictLine (verdict : Bool) (path : Text) :
    world.onOutput (verdictLine verdict path) = verdictLine verdict (world.onOutput path) := by
  have hlabel : '\x1b' ∉ verdictLine verdict [] := by cases verdict <;> decide
  rw [verdictLine_eq_append, World.onOutput_append_of_not_mem h hlabel, ← verdictLine_eq_append]

theorem World.onErrors_errorLine (message : String) :
    world.onErrors (errorLine message) = "Error: ".toList ++ world.onErrors message.toList := by
  rw [World.onErrors_eq h]
  exact seen_append_of_not_mem world.terminalErrors (by decide) message.toList

/-- Neither the label nor what is seen of the path makes a second line of it, unless the path itself does. -/
theorem feed_not_mem_verdictLine {path : Text} (hpath : '\n' ∉ path) (verdict : Bool) :
    '\n' ∉ verdictLine verdict (world.onOutput path) := by
  have hlabel : ∀ verdict, '\n' ∉ verdictLine verdict [] := by decide
  rw [verdictLine_eq_append, List.mem_append, not_or]
  exact ⟨hlabel verdict, fun hfeed => hpath ((World.onOutput_sublist h path).subset hfeed)⟩

end

end SourceOrigin.Command
