import FloorControl.Indicator
import FloorControl.Cause

/-!
# Floor messages

The ten messages that pass between a participant and the arbitrator of its call. Every message has
a kind, and every kind a code; seven of them name one party, the request names its sender's whole
wish, and `idle` names nobody. Media frames, which the floor only guards, are described last.
-/

namespace FloorControl

/-- The kind of a message, which is also what an acknowledgement refers to. -/
inductive MessageKind where
  | request
  | granted
  | taken
  | deny
  | release
  | idle
  | revoke
  | queuePositionRequest
  | queuePositionInfo
  | ack
  deriving DecidableEq, Repr

namespace MessageKind

instance : Vocabulary MessageKind where
  all := [.request, .granted, .taken, .deny, .release, .idle, .revoke, .queuePositionRequest,
    .queuePositionInfo, .ack]
  word
    | .request => "request"
    | .granted => "granted"
    | .taken => "taken"
    | .deny => "deny"
    | .release => "release"
    | .idle => "idle"
    | .revoke => "revoke"
    | .queuePositionRequest => "queue_position_request"
    | .queuePositionInfo => "queue_position_info"
    | .ack => "ack"
  mem_all a := by cases a <;> decide
  word_injective a b := by cases a <;> cases b <;> decide

/-- The code on the wire. The code 7 is not assigned. -/
def code : MessageKind → UInt8
  | .request => 0
  | .granted => 1
  | .taken => 2
  | .deny => 3
  | .release => 4
  | .idle => 5
  | .revoke => 6
  | .queuePositionRequest => 8
  | .queuePositionInfo => 9
  | .ack => 10

def ofCode? (c : UInt8) : Option MessageKind :=
  (Vocabulary.all : List MessageKind).find? fun k => k.code = c

@[simp] theorem ofCode?_code (k : MessageKind) : ofCode? k.code = some k := by
  cases k <;> decide

theorem code_of_ofCode? {c : UInt8} {k : MessageKind} (h : ofCode? c = some k) : k.code = c := by
  simpa using List.find?_some h

def title : MessageKind → String
  | .request => "FLOOR_REQUEST"
  | .granted => "FLOOR_GRANTED"
  | .taken => "FLOOR_TAKEN"
  | .deny => "FLOOR_DENY"
  | .release => "FLOOR_RELEASE"
  | .idle => "FLOOR_IDLE"
  | .revoke => "FLOOR_REVOKE"
  | .queuePositionRequest => "FLOOR_QUEUE_POS_REQUEST"
  | .queuePositionInfo => "FLOOR_QUEUE_POS_INFO"
  | .ack => "FLOOR_ACK"

end MessageKind

/-- A wish for the floor. `dual` asks to talk beside the present talker, and `queueing` says that
the sender is willing to wait. -/
structure Request where
  ssrc : Ssrc
  priority : Priority
  indicator : Indicator
  dual : Bool
  queueing : Bool
  deriving DecidableEq, Repr

/-- Who would talk if the request were granted. -/
def Request.talker (r : Request) : Talker := ⟨r.ssrc, r.priority, r.indicator⟩

/-- A message between a participant and the arbitrator. A flag `ack` asks the receiver for an
acknowledgement, and a flag `dual` marks the second talker of a call. -/
inductive Message where
  /-- A participant wants the floor. -/
  | request (wish : Request)
  /-- The named party may talk, for `duration` milliseconds at most. -/
  | granted (ssrc : Ssrc) (priority : Priority) (duration : UInt64) (dual ack : Bool)
  /-- The named party's request is turned down. -/
  | denied (ssrc : Ssrc) (cause : DenyCause) (ack : Bool)
  /-- The named party gives the floor back. -/
  | release (ssrc : Ssrc)
  /-- Nobody has the floor. -/
  | idle (ack : Bool)
  /-- The named party has the floor. -/
  | taken (ssrc : Ssrc) (dual ack : Bool)
  /-- The named party has to give the floor back. -/
  | revoke (ssrc : Ssrc) (cause : RevokeCause) (ack : Bool)
  /-- The named party asks for its place in the queue. -/
  | queuePositionRequest (ssrc : Ssrc)
  /-- The named party's place in the queue, counted from one. -/
  | queuePositionInfo (ssrc : Ssrc) (position : UInt64) (priority : Priority)
  /-- The named party has received a message of the given kind. -/
  | ack (ssrc : Ssrc) (acked : MessageKind)
  deriving DecidableEq, Repr

namespace Message

def kind : Message → MessageKind
  | .request .. => .request
  | .granted .. => .granted
  | .denied .. => .deny
  | .release .. => .release
  | .idle .. => .idle
  | .taken .. => .taken
  | .revoke .. => .revoke
  | .queuePositionRequest .. => .queuePositionRequest
  | .queuePositionInfo .. => .queuePositionInfo
  | .ack .. => .ack

def requiresAck : Message → Bool
  | .granted _ _ _ _ asks | .denied _ _ asks | .idle asks | .taken _ _ asks | .revoke _ _ asks =>
      asks
  | .request .. | .release .. | .queuePositionRequest .. | .queuePositionInfo .. | .ack .. => false

def ssrc? : Message → Option Ssrc
  | .request wish => some wish.ssrc
  | .granted ssrc .. | .denied ssrc .. | .release ssrc | .taken ssrc .. | .revoke ssrc ..
  | .queuePositionRequest ssrc | .queuePositionInfo ssrc .. | .ack ssrc .. => some ssrc
  | .idle .. => none

def forArbitrator : Message → Bool
  | .request .. | .release .. | .queuePositionRequest .. | .ack .. => true
  | .granted .. | .denied .. | .idle .. | .taken .. | .revoke .. | .queuePositionInfo .. => false

def label : Message → String
  | .request wish => s!"Request({wish.ssrc})"
  | .granted ssrc .. => s!"Granted({ssrc})"
  | .denied ssrc .. => s!"Denied({ssrc})"
  | .release ssrc => s!"Release({ssrc})"
  | .idle .. => "Idle()"
  | .taken ssrc .. => s!"Taken({ssrc})"
  | .revoke ssrc .. => s!"Revoke({ssrc})"
  | .queuePositionRequest ssrc => s!"QueuePositionRequest({ssrc})"
  | .queuePositionInfo ssrc position _ => s!"QueuePositionInfo({ssrc}, #{position})"
  | .ack ssrc acked => s!"Ack({ssrc}, {acked.title})"

end Message

/-- A frame of speech. The floor does not look inside it, it only stamps the sender on it. -/
structure MediaFrame where
  ssrc : Ssrc
  sequence : UInt32
  payload : List UInt8
  deriving DecidableEq, Repr

end FloorControl
