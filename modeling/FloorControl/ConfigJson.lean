import FloorControl.Config
import FloorControl.JsonText

/-!
# Configurations as JSON

A configuration is a record of records. Every field may be missing, and then has its default. A
configuration that was read is checked before it is used.
-/

namespace FloorControl

namespace ArbitratorConfig

def toJson (c : ArbitratorConfig) : Json :=
  .object
    [("t1_ms", .uint64 c.t1), ("t2_ms", .uint64 c.t2), ("t3_ms", .uint64 c.t3),
      ("t4_ms", .uint64 c.t4), ("t7_ms", .uint64 c.t7), ("t20_ms", .uint64 c.t20),
      ("c7_limit", .uint32 c.c7Limit), ("c20_limit", .uint32 c.c20Limit),
      ("queue_capacity", .uint64 c.queueCapacity),
      ("queueing_supported", .bool c.queueingSupported),
      ("dual_floor_supported", .bool c.dualFloorSupported), ("ack_required", .bool c.ackRequired),
      ("tx_ssrc", .uint32 c.ssrc)]

def fieldNames : List String :=
  ["t1_ms", "t2_ms", "t3_ms", "t4_ms", "t7_ms", "t20_ms", "c7_limit", "c20_limit",
    "queue_capacity", "queueing_supported", "dual_floor_supported", "ack_required", "tx_ssrc"]

def shape : Shape := .record (fieldNames.map (·, .any))

def ofJson? (j : Json) : Option ArbitratorConfig := do
  let f ← j.fields? fieldNames
  let default : ArbitratorConfig := {}
  return {
    t1 := ← Json.optional Json.uint64? "t1_ms" default.t1 f
    t2 := ← Json.optional Json.uint64? "t2_ms" default.t2 f
    t3 := ← Json.optional Json.uint64? "t3_ms" default.t3 f
    t4 := ← Json.optional Json.uint64? "t4_ms" default.t4 f
    t7 := ← Json.optional Json.uint64? "t7_ms" default.t7 f
    t20 := ← Json.optional Json.uint64? "t20_ms" default.t20 f
    c7Limit := ← Json.optional Json.uint32? "c7_limit" default.c7Limit f
    c20Limit := ← Json.optional Json.uint32? "c20_limit" default.c20Limit f
    queueCapacity := ← Json.optional Json.uint64? "queue_capacity" default.queueCapacity f
    queueingSupported :=
      ← Json.optional Json.bool? "queueing_supported" default.queueingSupported f
    dualFloorSupported :=
      ← Json.optional Json.bool? "dual_floor_supported" default.dualFloorSupported f
    ackRequired := ← Json.optional Json.bool? "ack_required" default.ackRequired f
    ssrc := ← Json.optional Json.uint32? "tx_ssrc" default.ssrc f }

end ArbitratorConfig

namespace ParticipantConfig

def toJson (c : ParticipantConfig) : Json :=
  .object
    [("t100_ms", .uint64 c.t100), ("t101_ms", .uint64 c.t101), ("t104_ms", .uint64 c.t104),
      ("t132_ms", .uint64 c.t132), ("c100_limit", .uint32 c.c100Limit),
      ("c101_limit", .uint32 c.c101Limit), ("c104_limit", .uint32 c.c104Limit),
      ("queueing", .bool c.queueing)]

def fieldNames : List String :=
  ["t100_ms", "t101_ms", "t104_ms", "t132_ms", "c100_limit", "c101_limit", "c104_limit",
    "queueing"]

def shape : Shape := .record (fieldNames.map (·, .any))

def ofJson? (j : Json) : Option ParticipantConfig := do
  let f ← j.fields? fieldNames
  let default : ParticipantConfig := {}
  return {
    t100 := ← Json.optional Json.uint64? "t100_ms" default.t100 f
    t101 := ← Json.optional Json.uint64? "t101_ms" default.t101 f
    t104 := ← Json.optional Json.uint64? "t104_ms" default.t104 f
    t132 := ← Json.optional Json.uint64? "t132_ms" default.t132 f
    c100Limit := ← Json.optional Json.uint32? "c100_limit" default.c100Limit f
    c101Limit := ← Json.optional Json.uint32? "c101_limit" default.c101Limit f
    c104Limit := ← Json.optional Json.uint32? "c104_limit" default.c104Limit f
    queueing := ← Json.optional Json.bool? "queueing" default.queueing f }

end ParticipantConfig

namespace SessionConfig

def toJson (c : SessionConfig) : Json :=
  .object
    [("arbitrator", c.arbitrator.toJson), ("participant", c.participant.toJson),
      ("link_delay_ms", .uint64 c.linkDelay)]

def shape : Shape :=
  .record [("arbitrator", ArbitratorConfig.shape), ("participant", ParticipantConfig.shape),
    ("link_delay_ms", .any)]

/-- The configuration of a JSON value. It is not checked. -/
def ofJson? (j : Json) : Option SessionConfig := do
  let f ← j.fields? ["arbitrator", "participant", "link_delay_ms"]
  return {
    arbitrator := ← Json.optional ArbitratorConfig.ofJson? "arbitrator" {} f
    participant := ← Json.optional ParticipantConfig.ofJson? "participant" {} f
    linkDelay := ← Json.optional Json.uint64? "link_delay_ms" 0 f }

/-- The configuration of a text, if it breaks no rule. -/
def load (text : String) : Except FloorError SessionConfig :=
  match (Json.parseKept? shape text).bind ofJson? with
  | none => .error (.config .malformed)
  | some c =>
    match c.fault? with
    | some fault => .error (.config fault)
    | none => .ok c

end SessionConfig
end FloorControl
