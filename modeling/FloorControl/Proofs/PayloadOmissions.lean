import FloorControl.Proofs.PacketRoundTrip
import Mathlib.Data.List.Nodup

/-!
# Payloads that say less, or more

A payload need not have all the fields that a message is written with. A flag that is left out is
read as its default, fields of names that the payload does not declare are not looked at, and the
order of the fields is free. So a packet that lacks some fields and has others besides is decoded
to the same message exactly if every field that it lacks has its default, and it is refused if it
lacks a field that has none.
-/

namespace FloorControl
namespace Json

section

variable {α : Type} {read : Json → Option α} {name : String} {fields : List (String × Json)}

theorem required_of_member? {value : Json} (found : member? name fields = some value) :
    required read name fields = read value := by
  simp [required, found]

theorem required_of_missing (missing : member? name fields = none) :
    required read name fields = none := by
  simp [required, missing]

theorem optional_of_member? {default : α} {value : Json}
    (found : member? name fields = some value) :
    optional read name default fields = read value := by
  simp [optional, found]

theorem optional_of_missing {default : α} (missing : member? name fields = none) :
    optional read name default fields = some default := by
  simp [optional, missing]

theorem optional_bool {default b : Bool}
    (found : (member? name fields).or (some (.bool default)) = some (.bool b)) :
    optional bool? name default fields = some b := by
  cases there : member? name fields with
  | none => simp_all [optional_of_missing]
  | some value => simp_all [optional_of_member?]

end

theorem member?_eq_none_iff {name : String} {members : List (String × Json)} :
    member? name members = none ↔ name ∉ members.map Prod.fst := by
  induction members with
  | nil => simp [member?]
  | cons m rest ih =>
    rw [member?_cons]
    split
    · next same => simp [same]
    · next other => simp [ih, other]

theorem mem_of_member? {name : String} {value : Json} {members : List (String × Json)}
    (found : member? name members = some value) : (name, value) ∈ members := by
  induction members with
  | nil => cases found
  | cons m rest ih =>
    rw [member?_cons] at found
    split at found
    · next same =>
      cases found
      simp [same]
    · exact List.mem_cons_of_mem _ (ih found)

/-- A name has the only value that is given for it, wherever it stands. -/
theorem member?_eq_some_of_mem {name : String} {value : Json} {members : List (String × Json)}
    (mem : (name, value) ∈ members) (only : ∀ other, (name, other) ∈ members → other = value) :
    member? name members = some value := by
  induction members with
  | nil => cases mem
  | cons m rest ih =>
    rw [member?_cons]
    split
    · next same =>
      subst same
      rw [only m.2 List.mem_cons_self]
    · next other =>
      refine ih ?_ fun value mem => only value (List.mem_cons_of_mem _ mem)
      rcases List.mem_cons.mp mem with rfl | mem
      · exact absurd rfl other
      · exact mem

end Json

namespace Message

/-- The value that a field of a payload has when it is left out, if it may be. -/
def default? : String → Option Json
  | "dual_floor" => some (.bool false)
  | "ack" => some (.bool false)
  | "queueing" => some (.bool true)
  | _ => none

variable {m : Message} {kind : MessageKind} {saysNothing : Json → Bool} {g : List (String × Json)}

theorem fst_mem_fieldNames {f : String × Json} (mem : f ∈ m.fields) : f.1 ∈ fieldNames m.kind := by
  rw [← map_fst_fields]
  exact List.mem_map_of_mem mem

/-- A message is made of fields that have its values, as long as a missing one has its default. -/
theorem ofFields?_of_defaults
    (same : ∀ f ∈ m.fields, (Json.member? f.1 g).or (default? f.1) = some f.2) :
    ofFields? m.kind saysNothing g = some m := by
  cases m <;>
    simp only [fields, default?, List.forall_mem_cons] at same <;>
    simp_all [ofFields?, Message.kind, Json.required_of_member?, Json.optional_bool]

/-- What a message has for a field that was missing is the default. -/
theorem default?_of_ofFields? (read : ofFields? kind saysNothing g = some m) :
    ∀ f ∈ m.fields, Json.member? f.1 g = none → default? f.1 = some f.2 := by
  intro f mem missing
  cases kind <;>
    simp only [ofFields?, Option.bind_eq_bind, Option.bind_eq_some_iff, Option.pure_def,
      Option.some.injEq] at read
  all_goals grind [fields, default?, Json.required_of_missing, Json.optional_of_missing]

end Message

namespace Packet

/-- The packet is that of a message, but for its payload: the fields of the given names are left
out of it, some of names that it does not declare are put in, and they may stand in any order. -/
structure Varies (m : Message) (omitted : List String) (p : Packet) : Prop where
  op : p.op = (ofMessage m).op
  payload : ∃ written extra members, (ofMessage m).d = some (.object written) ∧
    (∀ f ∈ extra, f.1 ∉ Message.fieldNames m.kind) ∧
    members.Perm (written.filter (·.1 ∉ omitted) ++ extra) ∧ p.d = some (.object members)

variable {m : Message} {omitted : List String} {p : Packet}

/-- A declared field is looked up as it was written, unless it is left out. -/
theorem Varies.exists_members (varies : p.Varies m omitted) :
    ∃ members, p.d = some (.object members) ∧ ∀ f ∈ m.fields,
      Json.member? f.1 members = if f.1 ∈ omitted then none else some f.2 := by
  obtain ⟨written, extra, members, sent, undeclared, perm, got⟩ := varies.payload
  obtain rfl : Json.sortMembers m.fields = written := by
    simpa [ofMessage, Message.payload] using sent
  have mem_iff {name : String} (declared : name ∈ Message.fieldNames m.kind) (value : Json) :
      (name, value) ∈ members ↔ (name, value) ∈ m.fields ∧ name ∉ omitted := by
    have not_extra : (name, value) ∉ extra := fun mem => undeclared _ mem declared
    rw [perm.mem_iff, List.mem_append, List.mem_filter, (Json.sortMembers_perm _).mem_iff]
    simp [not_extra]
  refine ⟨members, got, fun f mem => ?_⟩
  have declared := Message.fst_mem_fieldNames mem
  split
  · next left =>
    rw [Json.member?_eq_none_iff]
    intro there
    obtain ⟨⟨name, value⟩, there, rfl⟩ := List.mem_map.mp there
    exact ((mem_iff declared value).mp there).2 left
  · next kept =>
    refine Json.member?_eq_some_of_mem ((mem_iff declared f.2).mpr ⟨mem, kept⟩) ?_
    intro other there
    have pair := ((mem_iff declared other).mp there).1
    exact congrArg Prod.snd (List.inj_on_of_nodup_map m.nodup_fields pair mem rfl)

/-- The payload decides whether a packet of an assigned code is decoded. -/
theorem message_of_object {kind : MessageKind} {members : List (String × Json)}
    (op : p.op = kind.code) (got : p.d = some (.object members)) :
    p.message = (Message.ofFields? kind Json.isNull members).elim
      (.error (.invalidPayload .malformed)) .ok := by
  simp only [message, op, got, MessageKind.ofCode?_code, Message.ofPayload?, Json.fields?,
    Option.bind_some]
  cases Message.ofFields? kind Json.isNull members <;> rfl

end Packet

/-- Whatever other fields a packet has, and in whatever order: it is decoded to the message that it
was made of exactly if the fields that it lacks have their defaults, and it is refused if it lacks
a field that has none. -/
theorem Message.survives_omission_iff (m : Message) (omitted : List String) (p : Packet)
    (varies : p.Varies m omitted) :
    (p.message = .ok m ↔ ∀ f ∈ m.fields, f.1 ∈ omitted → default? f.1 = some f.2) ∧
    ((∃ name ∈ fieldNames m.kind, name ∈ omitted ∧ default? name = none) →
      p.message = .error (.invalidPayload .malformed)) := by
  obtain ⟨members, got, found⟩ := varies.exists_members
  have answer := Packet.message_of_object varies.op got
  have missing {name} (declared : name ∈ fieldNames m.kind) (left : name ∈ omitted) :
      Json.member? name members = none := by
    rw [← map_fst_fields] at declared
    obtain ⟨f, mem, rfl⟩ := List.mem_map.mp declared
    rw [found f mem, if_pos left]
  refine ⟨⟨fun decoded f mem left => ?_, fun defaults => ?_⟩, ?_⟩
  · cases read : ofFields? m.kind Json.isNull members with
    | none => simp [answer, read] at decoded
    | some other =>
      obtain rfl : other = m := by simpa [answer, read] using decoded
      exact default?_of_ofFields? read f mem (missing (fst_mem_fieldNames mem) left)
  · have read : ofFields? m.kind Json.isNull members = some m := by
      refine ofFields?_of_defaults fun f mem => ?_
      rw [found f mem]
      split
      · next left => exact defaults f mem left
      · rfl
    rw [answer, read, Option.elim_some]
  · rintro ⟨name, declared, left, needed⟩
    cases read : ofFields? m.kind Json.isNull members with
    | none => rw [answer, read, Option.elim_none]
    | some other =>
      -- A message of this kind has the field that is missing, which would then have a default.
      have unread := missing declared left
      rw [← kind_of_ofFields? read, ← map_fst_fields] at declared
      obtain ⟨f, mem, rfl⟩ := List.mem_map.mp declared
      rw [default?_of_ofFields? read f mem unread] at needed
      cases needed

/-- A request that leaves out both flags and says something that requests do not have, and another
one that does not say who sent it. -/
theorem Message.survives_omission_unsigned :
    let m : Message := .request ⟨7, 3, .normal, false, true⟩
    let terse : Packet := ⟨0, some (.object [("Queueing", .bool false),
      ("indicator", .string "normal"), ("priority", .nat 3), ("ssrc", .nat 7)])⟩
    let unsigned : Packet := ⟨0, some (.object [("dual_floor", .bool false),
      ("indicator", .string "normal"), ("priority", .nat 3), ("queueing", .bool true)])⟩
    (terse.Varies m ["dual_floor", "queueing"] ∧ terse.message = .ok m) ∧
      unsigned.Varies m ["ssrc"] ∧ unsigned.message = .error (.invalidPayload .malformed) := by
  intro m terse unsigned
  have terse_varies : terse.Varies m ["dual_floor", "queueing"] :=
    ⟨rfl, _, [("Queueing", .bool false)], _, rfl, by simp [fieldNames, m, kind],
      List.perm_append_comm, rfl⟩
  have unsigned_varies : unsigned.Varies m ["ssrc"] :=
    ⟨rfl, _, [], _, rfl, by simp, List.perm_append_comm, rfl⟩
  refine ⟨⟨terse_varies, (survives_omission_iff m _ terse terse_varies).1.mpr ?_⟩,
    unsigned_varies, (survives_omission_iff m _ unsigned unsigned_varies).2 ⟨"ssrc", ?_⟩⟩
  · simp [m, fields, default?]
  · simp [m, kind, fieldNames, default?]

end FloorControl
