import Expunge.Transport.Basic

/-!
# A transport that breaks

A transport that takes a number of messages and refuses all others. It shows what a sender makes of
a failure in the middle of its messages.
-/

namespace Expunge

/-- The number of messages that are still taken, and the reason for refusing the others. -/
structure BreakingPoint where
  remaining : Nat
  reason : String
deriving DecidableEq, Repr

namespace BreakingPoint

/-- The transport that breaks. Nothing ever waits on its topics. -/
def transport : Transport BreakingPoint where
  send _ _ point :=
    match point.remaining with
    | 0 => (.error point.reason, point)
    | remaining + 1 => (.ok (), { point with remaining := remaining })
  waiting _ _ := 0
  take _ point := (none, point)

end BreakingPoint

end Expunge
