/-! Cancellation tokens: a flag that work polls at its checkpoints. -/
namespace SourceOrigin

/-- A token counts its polls. With a countdown it trips by itself at the poll of that number, and it
stays cancelled for ever. -/
structure CancellationToken where
  polls : Nat := 0
  cancelled : Bool := false
  countdown : Option Int := none
  deriving DecidableEq, Repr

namespace CancellationToken

def cancel (token : CancellationToken) : CancellationToken := { token with cancelled := true }

def poll (token : CancellationToken) : CancellationToken :=
  let polls := token.polls + 1
  { token with polls, cancelled := token.cancelled || token.countdown.any (· ≤ (polls : Int)) }

end CancellationToken

end SourceOrigin
