import SourceOrigin.Command.Run
import SourceOrigin.Proofs.Text.Terminal

/-! What is relied on of the library for command lines. The definitions that the commands run with keep to it. -/
namespace SourceOrigin.Command

/-- All that follows two dashes is an operand, and a check needs one. Control sequences are taken out of a text and nothing
else is. -/
structure Toolkit.IsFaithful (toolkit : Toolkit) : Prop where
  read_operands : ∀ {paths : List Text}, paths ≠ [] →
    toolkit.read ("check".toList :: "--".toList :: paths) = some (.check false paths)
  read_nothing : toolkit.read ["check".toList, "--".toList] = none
  plain_nil : toolkit.plain [] = []
  plain_control : ∀ {text after : Text}, Text.behindControl? text = some after → toolkit.plain text = toolkit.plain after
  plain_cons : ∀ {c : Char} {rest : Text}, Text.behindControl? (c :: rest) = none →
    toolkit.plain (c :: rest) = c :: toolkit.plain rest

private theorem readInvocation_check {paths : List Text} (hne : paths ≠ []) :
    readInvocation ("check".toList :: "--".toList :: paths) = some (.check false paths) := by
  have hcommand : readArguments [.version] true ("check".toList :: "--".toList :: paths) =
      some { operands := "check".toList :: "--".toList :: paths } := by
    simp [readArguments]
  have hoperands : readArguments [.verbose] false ("--".toList :: paths) = some { operands := paths } := by
    simp [readArguments]
  have hcheck : readCheck ("--".toList :: paths) = some (.check false paths) := by
    rw [readCheck, hoperands]
    simp [Arguments.isSet, Arguments.value?, hne]
  rw [readInvocation, hcommand]
  simpa [Arguments.isSet, Arguments.value?] using hcheck

theorem Toolkit.isFaithful_default : ({} : Toolkit).IsFaithful where
  read_operands := readInvocation_check
  read_nothing := by decide +kernel
  plain_nil := Text.plain_nil
  plain_control {text _} h := by
    cases text with
    | nil => simp [Text.behindControl?] at h
    | cons c rest => exact Text.plain_of_behindControl? h
  plain_cons := Text.plain_cons

/-- Nothing else is left of a text in any library that is relied on. -/
theorem Toolkit.IsFaithful.plain_eq {toolkit : Toolkit} (h : toolkit.IsFaithful) (text : Text) :
    toolkit.plain text = Text.plain text := by
  induction hlength : text.length using Nat.strongRecOn generalizing text with
  | ind n ih =>
    subst hlength
    cases text with
    | nil => rw [h.plain_nil, Text.plain_nil]
    | cons c rest =>
      cases hbehind : Text.behindControl? (c :: rest) with
      | some after =>
        rw [h.plain_control hbehind, Text.plain_of_behindControl? hbehind]
        exact ih after.length (Text.length_behindControl_lt hbehind) after rfl
      | none =>
        rw [h.plain_cons hbehind, Text.plain_cons hbehind, ih rest.length (Nat.lt_succ_self _) rest rfl]

end SourceOrigin.Command
