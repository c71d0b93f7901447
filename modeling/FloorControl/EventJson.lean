import FloorControl.Event
import FloorControl.MessageJson

/-!
# Events as JSON

An event is an object that says its kind under `event`; a traced event has its time before that.
-/

namespace FloorControl

def Endpoint.toJson : Endpoint → Json
  | .arbitrator => .string "Arbitrator"
  | .participant ssrc => .object [("Participant", .uint32 ssrc)]

def Endpoint.ofJson? : Json → Option Endpoint
  | .string "Arbitrator" => some .arbitrator
  | .object [("Participant", ssrc)] => (ssrc.uint32?).map .participant
  | _ => none

namespace FloorEvent

/-- The members of an event, its kind first. -/
def members : FloorEvent → List (String × Json)
  | .arbitratorMoved call ssrc before after =>
    [("event", .string "state_changed"), ("call_id", .uint16 call), ("ssrc", .uint32 ssrc),
      ("machine", .string "arbitrator"), ("from", .string before.title),
      ("to", .string after.title)]
  | .participantMoved call ssrc before after =>
    [("event", .string "state_changed"), ("call_id", .uint16 call), ("ssrc", .uint32 ssrc),
      ("machine", .string "participant"), ("from", .string before.title),
      ("to", .string after.title)]
  | .messageSent call sender receiver message =>
    [("event", .string "message_sent"), ("call_id", .uint16 call), ("from", sender.toJson),
      ("to", receiver.toJson), ("msg", message.tagged)]
  | .floorGranted call ssrc =>
    [("event", .string "floor_granted"), ("call_id", .uint16 call), ("ssrc", .uint32 ssrc)]
  | .grantPending call ssrc =>
    [("event", .string "grant_pending"), ("call_id", .uint16 call), ("ssrc", .uint32 ssrc)]
  | .floorDenied call ssrc cause onSite =>
    [("event", .string "floor_denied"), ("call_id", .uint16 call), ("ssrc", .uint32 ssrc),
      ("cause", .word cause), ("local", .bool onSite)]
  | .floorRevoked call ssrc cause =>
    [("event", .string "floor_revoked"), ("call_id", .uint16 call), ("ssrc", .uint32 ssrc),
      ("cause", .word cause)]
  | .failure call ssrc kind =>
    [("event", .string "failure"), ("call_id", .uint16 call), ("ssrc", .uint32 ssrc),
      ("kind", .word kind)]
  | .callReleased call => [("event", .string "call_released"), ("call_id", .uint16 call)]

def toJson (e : FloorEvent) : Json := .object e.members

end FloorEvent

def TraceEvent.toJson (e : TraceEvent) : Json := .object (("ts", .nat e.time) :: e.event.members)

end FloorControl
