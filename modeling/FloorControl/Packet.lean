import FloorControl.Error
import FloorControl.JsonText
import FloorControl.MessageJson

/-!
# Packets

On the wire a message is a JSON object with the code of its kind under `op` and its payload under
`d`. The whole text has to be a packet before the code is looked at, and the code has to be assigned
before the payload is.
-/

namespace FloorControl

structure Packet where
  op : UInt8
  d : Option Json
  deriving Repr

namespace Packet

def ofMessage (m : Message) : Packet := ⟨m.kind.code, some m.payload⟩

def message (p : Packet) : Except FloorError Message :=
  match MessageKind.ofCode? p.op with
  | none => .error (.invalidOpcode p.op)
  | some kind =>
    match p.d with
    | none => .error (.invalidPayload .missing)
    | some payload =>
      match Message.ofPayload? kind payload with
      | none => .error (.invalidPayload .malformed)
      | some m => .ok m

def text (p : Packet) : String :=
  (Json.object [("op", .uint8 p.op), ("d", p.d.getD .null)]).text

/-- What is wanted of the text of a packet. -/
def shape : Shape := .record [("op", .any), ("d", .any)]

/-- The packet of a JSON value. As an object it may lack the payload; a payload of `null` is
none. -/
def ofJson? : Json → Option Packet
  | .object members => do
    let op ← Json.required Json.uint8? "op" members
    let d ← Json.optional some "d" .null members
    return ⟨op, if d.isNull then none else some d⟩
  | .array [op, d] => do
    return ⟨← op.uint8?, if d.isNull then none else some d⟩
  | _ => none

def parse (text : String) : Except FloorError Packet :=
  match (Json.parseKept? shape text).bind ofJson? with
  | some p => .ok p
  | none => .error (.invalidPayload .malformed)

end Packet

namespace Message

def text (m : Message) : String := (Packet.ofMessage m).text

def parse (text : String) : Except FloorError Message := (Packet.parse text).bind Packet.message

end Message
end FloorControl
