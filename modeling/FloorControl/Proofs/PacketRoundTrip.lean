import FloorControl.Packet
import FloorControl.Proofs.JsonReading

/-!
# Messages survive the wire

Every message is read back from the text it is sent as, and from its packet. Each field is written
so that its own reader gives it back, the members of a payload are found by name wherever the order
of names puts them, and the packet's text is parsed to the packet. A packet that comes from
elsewhere may be written in other ways (flags left out, words as objects, an array for the record),
but the message it is decoded to has the packet's code and survives the wire like any other.
-/

namespace FloorControl
namespace Json

@[simp] theorem uint8?_uint8 (n : UInt8) : (uint8 n).uint8? = some n := by
  have small : n.toNat < UInt8.size := n.toNat_lt
  simp [uint8, nat, uint8?, below?, small]

@[simp] theorem uint32?_uint32 (n : UInt32) : (uint32 n).uint32? = some n := by
  have small : n.toNat < UInt32.size := n.toNat_lt
  simp [uint32, nat, uint32?, below?, small]

@[simp] theorem uint64?_uint64 (n : UInt64) : (uint64 n).uint64? = some n := by
  have small : n.toNat < UInt64.size := n.toNat_lt
  simp [uint64, nat, uint64?, below?, small]

@[simp] theorem bool?_bool (b : Bool) : (Json.bool b).bool? = some b := rfl

@[simp] theorem wordWith?_word {α : Type} [Vocabulary α] (saysNothing : Json → Bool) (a : α) :
    wordWith? α saysNothing (word a) = some a := by
  simp [word, wordWith?]

theorem fits_nat (depth : Nat) {n : Nat} (small : n < UInt64.size) : Fits depth (nat n) := by
  refine .number ⟨?_, Int.ofNat_lt.mpr small⟩
  simp only [Int.ofNat_eq_natCast]
  omega

theorem fits_uint8 (depth : Nat) (n : UInt8) : Fits depth (uint8 n) :=
  fits_nat depth (Nat.lt_trans n.toNat_lt (by decide))

theorem fits_uint32 (depth : Nat) (n : UInt32) : Fits depth (uint32 n) :=
  fits_nat depth (Nat.lt_trans n.toNat_lt (by decide))

theorem fits_uint64 (depth : Nat) (n : UInt64) : Fits depth (uint64 n) :=
  fits_nat depth n.toNat_lt

theorem placeMember_perm (name : String) (value : Json) (members : List (String × Json)) :
    (placeMember name value members).Perm ((name, value) :: members) := by
  induction members with
  | nil => exact .refl _
  | cons m rest ih =>
    unfold placeMember
    split
    · exact .refl _
    · exact (ih.cons m).trans (.swap ..)

theorem sortMembers_perm (members : List (String × Json)) :
    (sortMembers members).Perm members := by
  induction members with
  | nil => exact .refl _
  | cons m rest ih => exact (placeMember_perm m.1 m.2 _).trans (ih.cons m)

theorem member?_cons (asked : String) (m : String × Json) (rest : List (String × Json)) :
    member? asked (m :: rest) = if asked = m.1 then some m.2 else member? asked rest := by
  obtain ⟨name, value⟩ := m
  by_cases found : asked = name
  · simp [member?, found]
  · have differs : (asked == name) = false := by simp [found]
    simp [member?, List.lookup_cons, differs, found]

theorem member?_placeMember {name : String} {members : List (String × Json)}
    (new : name ∉ members.map Prod.fst) (value : Json) (asked : String) :
    member? asked (placeMember name value members) =
      if asked = name then some value else member? asked members := by
  induction members with
  | nil => exact member?_cons asked (name, value) []
  | cons m rest ih =>
    simp only [List.map_cons, List.mem_cons, not_or] at new
    unfold placeMember
    split
    · exact member?_cons asked (name, value) (m :: rest)
    · simp only [member?_cons, ih new.2]
      by_cases found : asked = m.1
      · simp [found, Ne.symm new.1]
      · simp [found]

/-- Sorting does not change which value a name has. -/
theorem member?_sortMembers {members : List (String × Json)}
    (distinct : (members.map Prod.fst).Nodup) (asked : String) :
    member? asked (sortMembers members) = member? asked members := by
  induction members with
  | nil => rfl
  | cons m rest ih =>
    obtain ⟨new, distinct⟩ := List.nodup_cons.mp distinct
    have sorted : m.1 ∉ (sortMembers rest).map Prod.fst := fun mem =>
      new (((sortMembers_perm rest).map Prod.fst).mem_iff.mp mem)
    calc member? asked (sortMembers (m :: rest))
        = if asked = m.1 then some m.2 else member? asked (sortMembers rest) :=
          member?_placeMember sorted m.2 asked
      _ = member? asked (m :: rest) := by rw [ih distinct, member?_cons]

end Json

namespace Message

theorem map_fst_fields (m : Message) : m.fields.map Prod.fst = fieldNames m.kind := by
  cases m <;> rfl

theorem nodup_fieldNames (kind : MessageKind) : (fieldNames kind).Nodup := by
  cases kind <;> decide

theorem nodup_fields (m : Message) : (m.fields.map Prod.fst).Nodup := by
  rw [map_fst_fields]
  exact nodup_fieldNames m.kind

theorem fits_fields (depth : Nat) (m : Message) : ∀ f ∈ m.fields, f.2.Fits depth := by
  cases m <;>
    simp [fields, Json.word, Json.fits_uint8, Json.fits_uint32, Json.fits_uint64, Json.Fits.bool,
      Json.Fits.string]

theorem fits_payload (depth : Nat) (m : Message) : m.payload.Fits (depth + 1) := by
  have sorted := Json.sortMembers_perm m.fields
  refine .object ?_ fun f mem => fits_fields depth m f (sorted.mem_iff.mp mem)
  exact (sorted.map Prod.fst).nodup_iff.mpr m.nodup_fields

/-- A message is made of the values that its fields have, in whatever order they stand. -/
theorem ofFields?_congr {kind : MessageKind} {saysNothing : Json → Bool}
    {f g : List (String × Json)} (same : ∀ name, Json.member? name f = Json.member? name g) :
    ofFields? kind saysNothing f = ofFields? kind saysNothing g := by
  simp only [ofFields?, Json.required, Json.optional, same]

theorem ofFields?_fields (saysNothing : Json → Bool) (m : Message) :
    ofFields? m.kind saysNothing m.fields = some m := by
  cases m <;>
    simp [kind, fields, ofFields?, Json.required, Json.optional, Json.member?, List.lookup_cons]

theorem ofPayload?_payload (m : Message) : ofPayload? m.kind m.payload = some m := by
  calc ofPayload? m.kind m.payload
      = ofFields? m.kind Json.isNull (Json.sortMembers m.fields) := rfl
    _ = ofFields? m.kind Json.isNull m.fields :=
        ofFields?_congr (Json.member?_sortMembers m.nodup_fields)
    _ = some m := ofFields?_fields _ m

/-- Only a payload of its kind is decoded to a message. -/
theorem kind_of_ofFields? {kind : MessageKind} {saysNothing : Json → Bool}
    {f : List (String × Json)} {m : Message} (read : ofFields? kind saysNothing f = some m) :
    m.kind = kind := by
  cases kind <;>
    simp only [ofFields?, Option.bind_eq_bind, Option.bind_eq_some_iff, Option.pure_def,
      Option.some.injEq] at read
  all_goals grind [Message.kind]

theorem kind_of_ofPayload? {kind : MessageKind} {payload : Json} {m : Message}
    (read : ofPayload? kind payload = some m) : m.kind = kind := by
  obtain ⟨f, -, read⟩ := Option.bind_eq_some_iff.mp read
  exact kind_of_ofFields? read

end Message

namespace Packet

/-- A packet is what its text is parsed to, if its payload fits and is not written like none. -/
theorem parse_text {p : Packet}
    (held : ∀ payload ∈ p.d, payload.isNull = false ∧ payload.Fits (JsonText.depthLimit - 1)) :
    parse p.text = .ok p := by
  obtain ⟨op, d⟩ := p
  have fits : (d.getD .null).Fits 126 := by
    cases d with
    | none => exact .null
    | some payload => exact (held payload rfl).2
  have kept : Json.parseKept? shape (Packet.text ⟨op, d⟩) =
      some (.object [("op", .uint8 op), ("d", d.getD .null)]) := by
    simp [Json.parseKept?, text, JsonText.parse?_text, JsonText.ofJson, JsonText.ofMembers,
      JsonText.depthLimit, shape, JsonText.kept?, JsonText.keptMembers?,
      JsonText.string?_piecesOf, JsonText.value?_ofJson fits,
      JsonText.value?_ofJson (Json.fits_uint8 126 op), List.lookup_cons, List.lookup_nil,
      Json.member?]
  have read : ofJson? (.object [("op", .uint8 op), ("d", d.getD .null)]) = some ⟨op, d⟩ := by
    cases d with
    | none =>
      simp [ofJson?, Json.required, Json.optional, Json.member?, List.lookup_cons, Json.isNull]
    | some payload =>
      simp [ofJson?, Json.required, Json.optional, Json.member?, List.lookup_cons,
        (held payload rfl).1]
  simp [parse, kept, read]

theorem parse_text_ofMessage (m : Message) : parse m.text = .ok (ofMessage m) := by
  refine parse_text fun payload own => ?_
  obtain rfl : m.payload = payload := by simpa [ofMessage] using own
  exact ⟨rfl, m.fits_payload _⟩

@[simp] theorem message_ofMessage (m : Message) : (ofMessage m).message = .ok m := by
  simp [message, ofMessage, Message.ofPayload?_payload]

/-- The code of a decoded packet is that of its message. -/
theorem code_of_message {p : Packet} {m : Message} (decoded : p.message = .ok m) :
    m.kind.code = p.op := by
  unfold message at decoded
  split at decoded
  · contradiction
  · next kind assigned =>
    split at decoded
    · contradiction
    · next payload _ =>
      split at decoded
      · contradiction
      · next read =>
        obtain rfl := Except.ok.inj decoded
        rw [Message.kind_of_ofPayload? read]
        exact MessageKind.code_of_ofCode? assigned

end Packet

/-- A message is what its text and its packet are decoded to; and whatever packet a message was
decoded from, the packet has the code of the message, and the message survives its own packet. -/
theorem Message.survives_the_wire :
    (∀ m : Message, Message.parse m.text = .ok m ∧ (Packet.ofMessage m).message = .ok m) ∧
    ∀ (p : Packet) (m : Message), p.message = .ok m →
      m.kind.code = p.op ∧ (Packet.ofMessage m).message = .ok m := by
  refine ⟨fun m => ⟨?_, Packet.message_ofMessage m⟩, fun p m decoded => ?_⟩
  · simp [Message.parse, Packet.parse_text_ofMessage, Except.bind]
  · exact ⟨Packet.code_of_message decoded, Packet.message_ofMessage m⟩

/-- A request that leaves out its flags and writes its indicator as an object. -/
theorem Message.survives_the_wire_terse :
    let p : Packet := ⟨0, some (.object [("priority", .uint8 7), ("ssrc", .uint32 4294967295),
      ("indicator", .object [("emergency", .null)])])⟩
    let m : Message := .request ⟨4294967295, 7, .emergency, false, true⟩
    p.message = .ok m ∧ m.kind.code = p.op ∧ (Packet.ofMessage m).message = .ok m := by
  have decoded : (Packet.message ⟨0, some (.object [("priority", .uint8 7),
      ("ssrc", .uint32 4294967295), ("indicator", .object [("emergency", .null)])])⟩) =
      .ok (.request ⟨4294967295, 7, .emergency, false, true⟩) := by rfl
  exact ⟨decoded, Message.survives_the_wire.2 _ _ decoded⟩

end FloorControl
