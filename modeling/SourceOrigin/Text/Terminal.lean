import SourceOrigin.Text.Basic

/-! Control sequences for terminals, such as those that set colours, and texts without them. -/
namespace SourceOrigin.Text

def isParameter (c : Char) : Bool := c = ';' || c = '?' || c.isDigit

/-- The text behind the control sequence that it begins with: an escape, a bracket, parameters and a
letter. -/
def behindControl? : Text → Option Text
  | '\x1b' :: '[' :: rest =>
    match rest.dropWhile isParameter with
    | final :: after => if final.isAlpha then some after else none
    | [] => none
  | _ => none

theorem length_behindControl_lt {text after : Text} (h : behindControl? text = some after) :
    after.length < text.length := by
  unfold behindControl? at h
  split at h
  · next rest =>
    have hle := (List.dropWhile_suffix isParameter (l := rest)).sublist.length_le
    grind
  · simp at h

/-- The text without control sequences, behind what is done already, which is given backwards. What is
left on both sides of a sequence is not read together. -/
def plainOnto (done text : Text) : Text :=
  match text with
  | [] => done.reverse
  | c :: rest =>
    match _h : behindControl? (c :: rest) with
    | some after => plainOnto done after
    | none => plainOnto (c :: done) rest
termination_by text.length
decreasing_by
  · exact length_behindControl_lt (by assumption)
  · exact Nat.lt_succ_self _

def plain (text : Text) : Text := plainOnto [] text

end SourceOrigin.Text
