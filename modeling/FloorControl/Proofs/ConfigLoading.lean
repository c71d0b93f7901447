import FloorControl.ConfigJson
import FloorControl.Proofs.PayloadOmissions

/-!
# Loading a configuration

A configuration may be written without the fields that have their defaults, at the top or inside
its two records, and with blanks anywhere. Such a text is loaded to the very configuration that it
was made of if that one breaks no rule; otherwise loading fails, and the complaint is about the
first rule that is broken. No other text is loaded to a configuration that breaks a rule either.
-/

namespace FloorControl
namespace Json

def members : Json → List (String × Json)
  | .object members => members
  | _ => []

mutual

/-- A value as it is written when some members of its records are left out: members that have the
same value in the given default. -/
inductive Abridges : (default whole j : Json) → Prop
  | plain {default j : Json} : (∀ members, j ≠ .object members) → Abridges default j j
  | record {default whole members : List (String × Json)} : LeavesOut default whole members →
      Abridges (.object default) (.object whole) (.object members)

inductive LeavesOut : (default whole members : List (String × Json)) → Prop
  | nil {default : List (String × Json)} : LeavesOut default [] []
  | keep {default whole members : List (String × Json)} {name : String} {standard value j : Json} :
      member? name default = some standard → Abridges standard value j →
      LeavesOut default whole members →
      LeavesOut default ((name, value) :: whole) ((name, j) :: members)
  | drop {default whole members : List (String × Json)} {name : String} {value : Json} :
      member? name default = some value → LeavesOut default whole members →
      LeavesOut default ((name, value) :: whole) members

end

theorem Abridges.exists_leavesOut {default whole j : Json} (abridges : Abridges default whole j)
    (record : whole = .object whole.members) :
    ∃ members, j = .object members ∧ LeavesOut default.members whole.members members := by
  cases abridges with
  | plain noRecord => exact absurd record (noRecord _)
  | record left => exact ⟨_, rfl, left⟩

theorem LeavesOut.names {default : List (String × Json)} : ∀ {whole members : List (String × Json)},
    LeavesOut default whole members → (members.map Prod.fst).Sublist (whole.map Prod.fst)
  | _, _, .nil => .refl _
  | _, _, .keep _ _ rest => rest.names.cons_cons _
  | _, _, .drop _ rest => rest.names.cons _

/-- A member that is kept is one of the whole record, abridged. -/
theorem LeavesOut.of_mem {default : List (String × Json)} {m : String × Json} :
    ∀ {whole members : List (String × Json)}, LeavesOut default whole members → m ∈ members →
      ∃ standard value, member? m.1 default = some standard ∧ (m.1, value) ∈ whole ∧
        Abridges standard value m.2
  | _, _, .keep standard abridges rest, mem => by
    rcases List.mem_cons.mp mem with rfl | mem
    · exact ⟨_, _, standard, List.mem_cons_self, abridges⟩
    · obtain ⟨_, _, standard, kept, abridges⟩ := rest.of_mem mem
      exact ⟨_, _, standard, List.mem_cons_of_mem _ kept, abridges⟩
  | _, _, .drop _ rest, mem => by
    obtain ⟨_, _, standard, kept, abridges⟩ := rest.of_mem mem
    exact ⟨_, _, standard, List.mem_cons_of_mem _ kept, abridges⟩

/-- A name is looked up as a member that is kept, or it is missing, and then its value was the
default. -/
theorem LeavesOut.member?_cases {default : List (String × Json)} (name : String) :
    ∀ {whole members : List (String × Json)}, LeavesOut default whole members →
      (whole.map Prod.fst).Nodup →
      (∃ standard value j, member? name default = some standard ∧
        member? name whole = some value ∧ member? name members = some j ∧
        Abridges standard value j) ∨
      member? name members = none ∧ ∀ value, member? name whole = some value →
        member? name default = some value
  | _, _, .nil, _ => .inr ⟨rfl, fun value found => by cases found⟩
  | _, _, .keep standard abridges rest, distinct => by
    simp only [member?_cons]
    split
    · next same =>
      subst same
      exact .inl ⟨_, _, _, standard, rfl, rfl, abridges⟩
    · exact rest.member?_cases name (List.nodup_cons.mp distinct).2
  | _, _, .drop standard rest, distinct => by
    obtain ⟨new, distinct⟩ := List.nodup_cons.mp distinct
    simp only [member?_cons]
    split
    · next same =>
      subst same
      refine .inr ⟨member?_eq_none_iff.mpr fun mem => new (rest.names.subset mem), ?_⟩
      · rintro _ ⟨⟩
        exact standard
    · exact rest.member?_cases name distinct

/-- A field of an abridged record reads as it does in the whole one. -/
theorem LeavesOut.optional_eq {default whole members : List (String × Json)}
    (left : LeavesOut default whole members) (distinct : (whole.map Prod.fst).Nodup) {α : Type}
    {read : Json → Option α} {name : String} {missing : α}
    (standard : required read name default = some missing)
    (same : ∀ standard value j, member? name default = some standard →
      member? name whole = some value → Abridges standard value j → read j = read value) :
    optional read name missing members = optional read name missing whole := by
  rcases left.member?_cases name distinct with
    ⟨s, value, j, known, found, kept, abridges⟩ | ⟨lacking, stood⟩
  · rw [optional_of_member? kept, optional_of_member? found]
    exact same s value j known found abridges
  · rw [optional_of_missing lacking]
    cases found : member? name whole with
    | none => rw [optional_of_missing found]
    | some value =>
      rw [optional_of_member? found, ← standard, required_of_member? (stood value found)]

/-- A value that is no record is written as it is. -/
theorem Abridges.eq_of_plain {default value j : Json} (abridges : Abridges default value j)
    (plain : ∀ members, value ≠ .object members) : j = value := by
  cases abridges with
  | plain => rfl
  | record => exact absurd rfl (plain _)

inductive Flat : Json → Prop
  | uint32 (n : UInt32) : Flat (.uint32 n)
  | uint64 (n : UInt64) : Flat (.uint64 n)
  | bool (b : Bool) : Flat (.bool b)

theorem Flat.ne_object {j : Json} (flat : j.Flat) (members : List (String × Json)) :
    j ≠ .object members := by
  cases flat <;> simp [Json.uint32, Json.uint64, nat]

theorem Flat.fits {j : Json} (flat : j.Flat) (depth : Nat) : j.Fits depth := by
  cases flat with
  | uint32 n => exact fits_uint32 depth n
  | uint64 n => exact fits_uint64 depth n
  | bool b => exact .bool b

/-- The members of a record of numbers and flags. -/
structure FlatRecord (whole : List (String × Json)) : Prop where
  distinct : (whole.map Prod.fst).Nodup
  flat : ∀ m ∈ whole, m.2.Flat

/-- A field of an abridged flat record reads as it does in the whole one. -/
theorem LeavesOut.optional_flat {default whole members : List (String × Json)}
    (left : LeavesOut default whole members) (record : FlatRecord whole) {α : Type}
    {read : Json → Option α} {name : String} {missing : α}
    (standard : required read name default = some missing) :
    optional read name missing members = optional read name missing whole := by
  refine left.optional_eq record.distinct standard fun _ value j _ found abridges => ?_
  rw [abridges.eq_of_plain (record.flat _ (mem_of_member? found)).ne_object]

end Json

namespace JsonText

theorem lookup_any {name : String} {names : List String} (mem : name ∈ names) :
    (names.map (·, Shape.any)).lookup name = some .any := by
  induction names with
  | nil => cases mem
  | cons other rest ih =>
    by_cases same : name = other
    · simp [same]
    · have differs : (name == other) = false := by simp [same]
      simpa [List.lookup_cons, differs] using ih ((List.mem_cons.mp mem).resolve_left same)

theorem keptMembers?_ofMembers {fields : List (String × Shape)} {depth : Nat}
    {members : List (String × Json)} (distinct : (members.map Prod.fst).Nodup)
    (each : ∀ m ∈ members, ∃ shape, fields.lookup m.1 = some shape ∧
      kept? (ofJson m.2) shape depth = some m.2) :
    keptMembers? (ofMembers members) fields depth = some members := by
  induction members with
  | nil => rfl
  | cons m rest ih =>
    obtain ⟨new, distinct⟩ := List.nodup_cons.mp distinct
    obtain ⟨shape, wanted, kept⟩ := each m List.mem_cons_self
    have others := ih distinct fun m mem => each m (List.mem_cons_of_mem _ mem)
    have once : Json.member? m.1 rest = none := Json.member?_eq_none_iff.mpr new
    simp [ofMembers, keptMembers?, string?_piecesOf, others, wanted, kept, once]

/-- What is wanted of a flat record is all that is written of it. -/
theorem kept?_of_leavesOut {default whole members : List (String × Json)}
    (left : Json.LeavesOut default whole members) (record : Json.FlatRecord whole) (depth : Nat) :
    kept? (ofJson (.object members)) (.record ((whole.map Prod.fst).map (·, .any))) (depth + 1) =
      some (.object members) := by
  have kept : keptMembers? (ofMembers members) ((whole.map Prod.fst).map (·, .any)) depth =
      some members := by
    refine keptMembers?_ofMembers (left.names.nodup record.distinct) fun m mem => ⟨.any, ?_, ?_⟩
    · exact lookup_any (left.names.subset (List.mem_map_of_mem mem))
    · obtain ⟨_, value, -, known, abridges⟩ := left.of_mem mem
      have flat := record.flat _ known
      rw [kept?, abridges.eq_of_plain flat.ne_object]
      exact value?_ofJson (flat.fits depth)
  rw [ofJson, kept?, kept, Option.map_some]

end JsonText

namespace ArbitratorConfig

theorem ofJson?_toJson (c : ArbitratorConfig) : ofJson? c.toJson = some c := by
  dsimp only [toJson, ofJson?, Json.fields?, Option.bind_eq_bind, Option.bind_some]
  -- In one pass: with each field that is found, all that come after it would be visited again.
  simp +singlePass only [Json.optional, Json.member?_cons, ↓reduceIte, String.reduceEq,
    Json.uint64?_uint64, Json.uint32?_uint32, Json.bool?_bool]
  rfl

theorem flatRecord_toJson (c : ArbitratorConfig) : Json.FlatRecord c.toJson.members where
  distinct := by
    change fieldNames.Nodup
    decide
  flat := by simp [toJson, Json.members, Json.Flat.uint64, Json.Flat.uint32, Json.Flat.bool]

variable {c : ArbitratorConfig} {j : Json}

theorem ofJson?_of_abridges
    (abridges : Json.Abridges ({} : ArbitratorConfig).toJson c.toJson j) :
    ofJson? j = some c := by
  obtain ⟨members, rfl, left⟩ := abridges.exists_leavesOut rfl
  calc ofJson? (.object members)
      = ofJson? (.object c.toJson.members) := by
        dsimp only [ofJson?, Json.fields?, Option.bind_eq_bind, Option.bind_some]
        repeat rw [left.optional_flat c.flatRecord_toJson]
        all_goals simp [toJson, Json.members, Json.required, Json.member?_cons]
    _ = some c := ofJson?_toJson c

theorem kept?_of_abridges
    (abridges : Json.Abridges ({} : ArbitratorConfig).toJson c.toJson j) (depth : Nat) :
    (JsonText.ofJson j).kept? shape (depth + 1) = some j := by
  obtain ⟨members, rfl, left⟩ := abridges.exists_leavesOut rfl
  exact JsonText.kept?_of_leavesOut left c.flatRecord_toJson depth

end ArbitratorConfig

namespace ParticipantConfig

theorem ofJson?_toJson (c : ParticipantConfig) : ofJson? c.toJson = some c := by
  dsimp only [toJson, ofJson?, Json.fields?, Option.bind_eq_bind, Option.bind_some]
  -- In one pass: with each field that is found, all that come after it would be visited again.
  simp +singlePass only [Json.optional, Json.member?_cons, ↓reduceIte, String.reduceEq,
    Json.uint64?_uint64, Json.uint32?_uint32, Json.bool?_bool]
  rfl

theorem flatRecord_toJson (c : ParticipantConfig) : Json.FlatRecord c.toJson.members where
  distinct := by
    change fieldNames.Nodup
    decide
  flat := by simp [toJson, Json.members, Json.Flat.uint64, Json.Flat.uint32, Json.Flat.bool]

variable {c : ParticipantConfig} {j : Json}

theorem ofJson?_of_abridges
    (abridges : Json.Abridges ({} : ParticipantConfig).toJson c.toJson j) :
    ofJson? j = some c := by
  obtain ⟨members, rfl, left⟩ := abridges.exists_leavesOut rfl
  calc ofJson? (.object members)
      = ofJson? (.object c.toJson.members) := by
        dsimp only [ofJson?, Json.fields?, Option.bind_eq_bind, Option.bind_some]
        repeat rw [left.optional_flat c.flatRecord_toJson]
        all_goals simp [toJson, Json.members, Json.required, Json.member?_cons]
    _ = some c := ofJson?_toJson c

theorem kept?_of_abridges
    (abridges : Json.Abridges ({} : ParticipantConfig).toJson c.toJson j) (depth : Nat) :
    (JsonText.ofJson j).kept? shape (depth + 1) = some j := by
  obtain ⟨members, rfl, left⟩ := abridges.exists_leavesOut rfl
  exact JsonText.kept?_of_leavesOut left c.flatRecord_toJson depth

end ParticipantConfig

namespace SessionConfig

theorem ofJson?_toJson (c : SessionConfig) : ofJson? c.toJson = some c := by
  simp [toJson, ofJson?, Json.fields?, Json.optional, Json.member?_cons,
    ArbitratorConfig.ofJson?_toJson, ParticipantConfig.ofJson?_toJson]

theorem nodup_members (c : SessionConfig) : (c.toJson.members.map Prod.fst).Nodup := by
  simp [toJson, Json.members]

variable {c : SessionConfig} {j : Json}

theorem ofJson?_of_abridges (abridges : Json.Abridges ({} : SessionConfig).toJson c.toJson j) :
    ofJson? j = some c := by
  obtain ⟨members, rfl, left⟩ := abridges.exists_leavesOut rfl
  have arbitrator : Json.optional ArbitratorConfig.ofJson? "arbitrator" {} members =
      Json.optional ArbitratorConfig.ofJson? "arbitrator" {} c.toJson.members := by
    refine left.optional_eq c.nodup_members (ArbitratorConfig.ofJson?_toJson {}) ?_
    rintro _ _ j ⟨⟩ ⟨⟩ abridges
    rw [ArbitratorConfig.ofJson?_of_abridges abridges, ArbitratorConfig.ofJson?_toJson]
  have participant : Json.optional ParticipantConfig.ofJson? "participant" {} members =
      Json.optional ParticipantConfig.ofJson? "participant" {} c.toJson.members := by
    refine left.optional_eq c.nodup_members (ParticipantConfig.ofJson?_toJson {}) ?_
    rintro _ _ j ⟨⟩ ⟨⟩ abridges
    rw [ParticipantConfig.ofJson?_of_abridges abridges, ParticipantConfig.ofJson?_toJson]
  have linkDelay : Json.optional Json.uint64? "link_delay_ms" 0 members =
      Json.optional Json.uint64? "link_delay_ms" 0 c.toJson.members := by
    refine left.optional_eq c.nodup_members (Json.uint64?_uint64 0) ?_
    rintro _ _ j - ⟨⟩ abridges
    rw [abridges.eq_of_plain (Json.Flat.uint64 _).ne_object]
  calc ofJson? (.object members)
      = ofJson? (.object c.toJson.members) := by
        simp only [ofJson?, Json.fields?, Option.bind_eq_bind, Option.bind_some, arbitrator,
          participant, linkDelay]
    _ = some c := ofJson?_toJson c

theorem kept?_of_abridges (abridges : Json.Abridges ({} : SessionConfig).toJson c.toJson j) :
    (JsonText.ofJson j).kept? shape JsonText.depthLimit = some j := by
  obtain ⟨members, rfl, left⟩ := abridges.exists_leavesOut rfl
  have kept : JsonText.keptMembers? (JsonText.ofMembers members)
      [("arbitrator", ArbitratorConfig.shape), ("participant", ParticipantConfig.shape),
        ("link_delay_ms", .any)] 126 = some members := by
    refine JsonText.keptMembers?_ofMembers (left.names.nodup c.nodup_members) ?_
    rintro ⟨name, j⟩ mem
    obtain ⟨standard, value, known, whole, abridges⟩ := left.of_mem mem
    simp only [toJson, Json.members, List.mem_cons, Prod.mk.injEq, List.not_mem_nil,
      or_false] at whole
    rcases whole with ⟨rfl, rfl⟩ | ⟨rfl, rfl⟩ | ⟨rfl, rfl⟩
    · cases known
      exact ⟨_, rfl, ArbitratorConfig.kept?_of_abridges abridges _⟩
    · cases known
      exact ⟨_, rfl, ParticipantConfig.kept?_of_abridges abridges _⟩
    · rw [abridges.eq_of_plain (Json.Flat.uint64 _).ne_object]
      exact ⟨_, rfl, JsonText.value?_ofJson (Json.fits_uint64 _ _)⟩
  rw [JsonText.ofJson, shape, JsonText.depthLimit, JsonText.kept?, kept, Option.map_some]

/-- What is said of a configuration that breaks a rule, and whether this one keeps the rule, in the
order in which the rules are checked. -/
def rules (c : SessionConfig) : List (String × Bool) :=
  [("c7_limit must be at least 1", c.arbitrator.c7Limit ≠ 0),
    ("c20_limit must be at least 1", c.arbitrator.c20Limit ≠ 0),
    ("c100_limit must be at least 1", c.participant.c100Limit ≠ 0),
    ("c101_limit must be at least 1", c.participant.c101Limit ≠ 0),
    ("c104_limit must be at least 1", c.participant.c104Limit ≠ 0),
    ("queue_capacity must be at least 1 when queueing",
      c.arbitrator.queueingSupported = true → c.arbitrator.queueCapacity ≠ 0)]

/-- The complaint is about a rule that is broken, and all before it are kept. -/
def FirstBroken (c : SessionConfig) (complaint : String) : Prop :=
  ∃ before after, c.rules = before ++ (complaint, false) :: after ∧
    ∀ rule ∈ before, rule.2 = true

private def limitRule (l : String × UInt32) : String × Bool :=
  (l.1 ++ " must be at least 1", l.2 ≠ 0)

private def capacityRule (c : SessionConfig) : String × Bool :=
  ("queue_capacity must be at least 1 when queueing",
    c.arbitrator.queueingSupported = true → c.arbitrator.queueCapacity ≠ 0)

private theorem rules_eq (c : SessionConfig) :
    c.rules = c.limits.map limitRule ++ [c.capacityRule] := by
  rfl

/-- The complaint of a check is about the first rule that is broken. -/
theorem firstBroken_of_fault? {fault : ConfigFault} (found : c.fault? = some fault) :
    ∃ complaint, c.FirstBroken complaint ∧
      (FloorError.config fault).message = "Configuration error: " ++ complaint := by
  simp only [fault?] at found
  split at found
  · next name limit first =>
    cases found
    obtain ⟨zero, before, after, limits_eq, kept⟩ := List.find?_eq_some_iff_append.mp first
    have zero : limit = 0 := by simpa using zero
    refine ⟨name ++ " must be at least 1",
      ⟨before.map limitRule, after.map limitRule ++ [c.capacityRule], ?_, ?_⟩, ?_⟩
    · simp [rules_eq, limits_eq, limitRule, zero]
    · intro r earlier
      obtain ⟨l, mem, rfl⟩ := List.mem_map.mp earlier
      simpa [limitRule] using kept l mem
    · exact String.append_assoc
  · next kept =>
    split at found
    · next empty =>
      cases found
      refine ⟨"queue_capacity must be at least 1 when queueing",
        ⟨c.limits.map limitRule, [], ?_, ?_⟩, by decide⟩
      · simp [rules_eq, capacityRule, empty]
      · intro r earlier
        obtain ⟨l, mem, rfl⟩ := List.mem_map.mp earlier
        simpa [limitRule] using List.find?_eq_none.mp kept l mem
    · cases found

end SessionConfig

/-- Whether a text is written for a value, with blanks anywhere between its parts. -/
def Json.WrittenAs (j : Json) (text : String) : Prop := JsonText.parse? text = some (.ofJson j)

namespace SessionConfig

theorem load_of_writtenAs {c : SessionConfig} {j : Json} {text : String}
    (abridges : Json.Abridges ({} : SessionConfig).toJson c.toJson j) (written : j.WrittenAs text) :
    load text = match c.fault? with
      | some fault => .error (.config fault)
      | none => .ok c := by
  have read : (Json.parseKept? shape text).bind ofJson? = some c := by
    rw [Json.parseKept?, written, Option.bind_some, kept?_of_abridges abridges, Option.bind_some,
      ofJson?_of_abridges abridges]
  cases checked : c.fault? <;> simp only [load, read, checked]

/-- A configuration that is written without some of its defaults, as compact text or with blanks
anywhere, is loaded exactly if it breaks no rule, and then as it is. Otherwise the complaint is
about the first rule that it breaks. Whatever the text, no configuration is loaded that breaks
one. -/
theorem load_abridged :
    (∀ (c : SessionConfig) (j : Json), Json.Abridges ({} : SessionConfig).toJson c.toJson j →
      j.WrittenAs j.text ∧ ∀ text, j.WrittenAs text →
        ((∃ loaded, load text = .ok loaded) ↔ c.Usable) ∧
        (c.Usable → load text = .ok c) ∧
        (¬ c.Usable → ∃ fault complaint, load text = .error (.config fault) ∧
          c.FirstBroken complaint ∧
          (FloorError.config fault).message = "Configuration error: " ++ complaint)) ∧
    ∀ (text : String) (c : SessionConfig), load text = .ok c → c.Usable := by
  constructor
  · intro c j abridges
    refine ⟨JsonText.parse?_text j, fun text written => ?_⟩
    have answer := load_of_writtenAs abridges written
    cases checked : c.fault? with
    | none =>
      have usable : c.Usable := c.fault?_eq_none_iff.mp checked
      rw [checked] at answer
      exact ⟨iff_of_true ⟨c, answer⟩ usable, fun _ => answer, fun broken => absurd usable broken⟩
    | some fault =>
      have broken : ¬ c.Usable := by
        rw [← fault?_eq_none_iff, checked]
        simp
      obtain ⟨complaint, first, message⟩ := firstBroken_of_fault? checked
      rw [checked] at answer
      refine ⟨iff_of_false ?_ broken, fun usable => absurd usable broken,
        fun _ => ⟨fault, complaint, answer, first, message⟩⟩
      rintro ⟨loaded, accepted⟩
      rw [answer] at accepted
      cases accepted
  · intro text c loaded
    rw [← fault?_eq_none_iff]
    simp only [load] at loaded
    split at loaded
    · cases loaded
    · split at loaded
      · cases loaded
      · next kept =>
        cases loaded
        exact kept

/-- A text that says what is not as usual, and one of a configuration that breaks two rules. -/
theorem load_abridged_sparse :
    let patient : SessionConfig := { participant := { c101Limit := 5 }, linkDelay := 20 }
    let hasty : SessionConfig := { participant := { c100Limit := 0, c104Limit := 0 } }
    load "\x7b \"participant\": \x7b \"c101_limit\": 5 \x7d, \"link_delay_ms\": 20 \x7d" =
      .ok patient ∧
    ∃ fault complaint,
      load "\x7b\"participant\":\x7b\"c100_limit\":0,\"c104_limit\":0\x7d\x7d" =
        .error (.config fault) ∧
      hasty.FirstBroken complaint ∧
      (FloorError.config fault).message = "Configuration error: " ++ complaint := by
  intro patient hasty
  have sparse : Json.Abridges ({} : SessionConfig).toJson patient.toJson
      (.object [("participant", .object [("c101_limit", .uint32 5)]),
        ("link_delay_ms", .uint64 20)]) :=
    .record <| .drop rfl <| .keep rfl
      (.record <| .drop rfl <| .drop rfl <| .drop rfl <| .drop rfl <| .drop rfl <|
        .keep rfl (.plain (Json.Flat.uint32 5).ne_object) <| .drop rfl <| .drop rfl .nil) <|
      .keep rfl (.plain (Json.Flat.uint64 20).ne_object) .nil
  have sparser : Json.Abridges ({} : SessionConfig).toJson hasty.toJson
      (.object [("participant", .object [("c100_limit", .uint32 0), ("c104_limit", .uint32 0)])]) :=
    .record <| .drop rfl <| .keep rfl
      (.record <| .drop rfl <| .drop rfl <| .drop rfl <| .drop rfl <|
        .keep rfl (.plain (Json.Flat.uint32 0).ne_object) <| .drop rfl <|
        .keep rfl (.plain (Json.Flat.uint32 0).ne_object) <| .drop rfl .nil) <|
      .drop rfl .nil
  have usable : patient.Usable := by constructor <;> decide
  have broken : ¬ hasty.Usable := fun usable => usable.c100 rfl
  constructor
  · refine ((load_abridged.1 patient _ sparse).2 _ ?_).2.1 usable
    rfl
  · refine ((load_abridged.1 hasty _ sparser).2 _ ?_).2.2 broken
    rfl

end SessionConfig
end FloorControl
