import FloorControl.Message
import FloorControl.State
import FloorControl.Timer

/-!
# What observers see

Every change of state, every message sent and every turn of a request is told to the observers of
a call, with the logical time at which it happened. `Observed` pairs a value with the log of what
was told while it came about.
-/

namespace FloorControl

/-- What was given up after too many repetitions. -/
inductive FailureKind where
  | requestUnanswered
  | releaseUnconfirmed
  | queuePositionUnanswered
  | grantNotAccepted
  | dualGrantUnacknowledged
  deriving DecidableEq, Repr

namespace FailureKind

instance : Vocabulary FailureKind where
  all := [.requestUnanswered, .releaseUnconfirmed, .queuePositionUnanswered, .grantNotAccepted,
    .dualGrantUnacknowledged]
  word
    | .requestUnanswered => "request_unanswered"
    | .releaseUnconfirmed => "release_unconfirmed"
    | .queuePositionUnanswered => "queue_position_unanswered"
    | .grantNotAccepted => "grant_not_accepted"
    | .dualGrantUnacknowledged => "dual_grant_unacknowledged"
  mem_all a := by cases a <;> decide
  word_injective a b := by cases a <;> cases b <;> decide

def title : FailureKind → String
  | .requestUnanswered => "RequestUnanswered"
  | .releaseUnconfirmed => "ReleaseUnconfirmed"
  | .queuePositionUnanswered => "QueuePositionUnanswered"
  | .grantNotAccepted => "GrantNotAccepted"
  | .dualGrantUnacknowledged => "DualGrantUnacknowledged"

end FailureKind

/-- What observers of a call are told. -/
inductive FloorEvent where
  /-- The arbitrator, known by its own SSRC, changed its state. -/
  | arbitratorMoved (call : CallId) (ssrc : Ssrc) (before after : ArbitratorState)
  | participantMoved (call : CallId) (ssrc : Ssrc) (before after : ParticipantState)
  | messageSent (call : CallId) (sender receiver : Endpoint) (message : Message)
  /-- The party may talk. -/
  | floorGranted (call : CallId) (ssrc : Ssrc)
  /-- The party's turn has come, and it has to accept the floor. -/
  | grantPending (call : CallId) (ssrc : Ssrc)
  /-- The party's request was turned down, `onSite` without asking the arbitrator. -/
  | floorDenied (call : CallId) (ssrc : Ssrc) (cause : DenyCause) (onSite : Bool)
  | floorRevoked (call : CallId) (ssrc : Ssrc) (cause : RevokeCause)
  | failure (call : CallId) (ssrc : Ssrc) (kind : FailureKind)
  | callReleased (call : CallId)
  deriving DecidableEq, Repr

namespace FloorEvent

def call : FloorEvent → CallId
  | .arbitratorMoved call .. | .participantMoved call .. | .messageSent call ..
  | .floorGranted call .. | .grantPending call .. | .floorDenied call .. | .floorRevoked call ..
  | .failure call .. | .callReleased call => call

def message? : FloorEvent → Option Message
  | .messageSent _ _ _ message => some message
  | _ => none

end FloorEvent

/-- An event with the logical time at which it was told. -/
structure TraceEvent where
  time : Nat
  event : FloorEvent
  deriving DecidableEq, Repr

/-- A value, and what was told while it came about, the latest event first. -/
structure Observed (σ : Type) where
  state : σ
  log : List TraceEvent := []

def Observed.trace {σ : Type} (o : Observed σ) : List TraceEvent := o.log.reverse

end FloorControl
