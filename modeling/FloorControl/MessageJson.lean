import FloorControl.Json
import FloorControl.Message

/-!
# Messages as JSON

A message is written in two forms. Its payload is a record of its fields, from which the kind has to
be known; the tagged form says the kind itself, under the name `type`, and is used in traces. Flags
may be missing: a missing `queueing` is true, every other one is false.
-/

namespace FloorControl
namespace Message

/-- The fields in the order of their declaration. -/
def fields : Message → List (String × Json)
  | .request r =>
    [("ssrc", .uint32 r.ssrc), ("priority", .uint8 r.priority), ("indicator", .word r.indicator),
      ("dual_floor", .bool r.dual), ("queueing", .bool r.queueing)]
  | .granted ssrc priority duration dual asks =>
    [("ssrc", .uint32 ssrc), ("priority", .uint8 priority), ("duration_hint", .uint64 duration),
      ("dual_floor", .bool dual), ("ack", .bool asks)]
  | .denied ssrc cause asks =>
    [("ssrc", .uint32 ssrc), ("cause", .word cause), ("ack", .bool asks)]
  | .release ssrc => [("ssrc", .uint32 ssrc)]
  | .idle asks => [("ack", .bool asks)]
  | .taken ssrc dual asks =>
    [("ssrc", .uint32 ssrc), ("dual_floor", .bool dual), ("ack", .bool asks)]
  | .revoke ssrc cause asks =>
    [("ssrc", .uint32 ssrc), ("cause", .word cause), ("ack", .bool asks)]
  | .queuePositionRequest ssrc => [("ssrc", .uint32 ssrc)]
  | .queuePositionInfo ssrc position priority =>
    [("ssrc", .uint32 ssrc), ("position", .uint64 position), ("priority", .uint8 priority)]
  | .ack ssrc acked => [("ssrc", .uint32 ssrc), ("acked", .word acked)]

/-- The payload: the fields in the order of their names. -/
def payload (m : Message) : Json := .object (Json.sortMembers m.fields)

end Message

def MessageKind.tag : MessageKind → String
  | .deny => "denied"
  | kind => Vocabulary.word kind

def MessageKind.ofTag? (tag : String) : Option MessageKind :=
  (Vocabulary.all : List MessageKind).find? fun kind => kind.tag = tag

namespace Message

def tagged (m : Message) : Json := .object (("type", .string m.kind.tag) :: m.fields)

def fieldNames : MessageKind → List String
  | .request => ["ssrc", "priority", "indicator", "dual_floor", "queueing"]
  | .granted => ["ssrc", "priority", "duration_hint", "dual_floor", "ack"]
  | .deny => ["ssrc", "cause", "ack"]
  | .release => ["ssrc"]
  | .idle => ["ack"]
  | .taken => ["ssrc", "dual_floor", "ack"]
  | .revoke => ["ssrc", "cause", "ack"]
  | .queuePositionRequest => ["ssrc"]
  | .queuePositionInfo => ["ssrc", "position", "priority"]
  | .ack => ["ssrc", "acked"]

/-- The message of a kind with the given fields. Words may be written as objects, whose only value
then says nothing more. -/
def ofFields? (kind : MessageKind) (saysNothing : Json → Bool) (f : List (String × Json)) :
    Option Message :=
  let ssrc := Json.required Json.uint32? "ssrc" f
  let flag (name : String) := Json.optional Json.bool? name false f
  match kind with
  | .request => do
    return .request
      { ssrc := ← ssrc
        priority := ← Json.required Json.uint8? "priority" f
        indicator := ← Json.required (Json.wordWith? Indicator saysNothing) "indicator" f
        dual := ← flag "dual_floor"
        queueing := ← Json.optional Json.bool? "queueing" true f }
  | .granted => do
    return .granted (← ssrc) (← Json.required Json.uint8? "priority" f)
      (← Json.required Json.uint64? "duration_hint" f) (← flag "dual_floor") (← flag "ack")
  | .deny => do
    return .denied (← ssrc) (← Json.required (Json.wordWith? DenyCause saysNothing) "cause" f)
      (← flag "ack")
  | .release => do return .release (← ssrc)
  | .idle => do return .idle (← flag "ack")
  | .taken => do return .taken (← ssrc) (← flag "dual_floor") (← flag "ack")
  | .revoke => do
    return .revoke (← ssrc) (← Json.required (Json.wordWith? RevokeCause saysNothing) "cause" f)
      (← flag "ack")
  | .queuePositionRequest => do return .queuePositionRequest (← ssrc)
  | .queuePositionInfo => do
    return .queuePositionInfo (← ssrc) (← Json.required Json.uint64? "position" f)
      (← Json.required Json.uint8? "priority" f)
  | .ack => do
    return .ack (← ssrc) (← Json.required (Json.wordWith? MessageKind saysNothing) "acked" f)

def ofPayload? (kind : MessageKind) (j : Json) : Option Message :=
  (j.fields? (fieldNames kind)).bind (ofFields? kind Json.isNull)

/-- The message of a tagged form. As an array, the form has its tag first. -/
def ofTagged? : Json → Option Message
  | .object members => do
    let tag ← Json.required Json.string? "type" members
    ofFields? (← MessageKind.ofTag? tag) Json.isUnit members
  | .array (tag :: items) => do
    let kind ← MessageKind.ofTag? (← tag.string?)
    ofFields? kind Json.isUnit (← (Json.array items).fields? (fieldNames kind))
  | _ => none

end Message
end FloorControl
