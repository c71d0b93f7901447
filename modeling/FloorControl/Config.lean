import FloorControl.Error

/-!
# Configuration

The delays, limits and policies of a call, with their defaults. Delays are in milliseconds. Field
names follow the timers and counters they set. A configuration is usable when no retry limit is
zero and, if waiting is supported, the queue has room for somebody.
-/

namespace FloorControl

structure ArbitratorConfig where
  /-- The time between two revocations of one talker. -/
  t1 : UInt64 := 4000
  /-- The longest talk. -/
  t2 : UInt64 := 30000
  /-- How long a revoked talker may keep the floor. -/
  t3 : UInt64 := 3000
  /-- The time between two reports to the queue. -/
  t4 : UInt64 := 30000
  /-- The time between two announcements that the floor is idle. -/
  t7 : UInt64 := 1000
  /-- The time between two grants to a second talker that does not acknowledge. -/
  t20 : UInt64 := 1000
  c7Limit : UInt32 := 10
  c20Limit : UInt32 := 3
  queueCapacity : UInt64 := 32
  queueingSupported : Bool := true
  dualFloorSupported : Bool := false
  ackRequired : Bool := false
  /-- The arbitrator's own SSRC, under which its changes of state are told. -/
  ssrc : Ssrc := 0
  deriving DecidableEq, Repr

structure ParticipantConfig where
  /-- The time between two releases that are not confirmed. -/
  t100 : UInt64 := 40
  /-- The time between two requests that are not answered. -/
  t101 : UInt64 := 40
  /-- The time between two questions for the place in the queue. -/
  t104 : UInt64 := 80
  /-- How long the user may take to accept the floor. -/
  t132 : UInt64 := 2000
  c100Limit : UInt32 := 3
  c101Limit : UInt32 := 3
  c104Limit : UInt32 := 3
  /-- Whether requests say that their sender is willing to wait. -/
  queueing : Bool := true
  deriving DecidableEq, Repr

structure SessionConfig where
  arbitrator : ArbitratorConfig := {}
  participant : ParticipantConfig := {}
  /-- The time that a message is on its way. -/
  linkDelay : UInt64 := 0
  deriving DecidableEq, Repr

namespace SessionConfig

/-- The retry limits with their names, in the order in which they are checked. -/
def limits (c : SessionConfig) : List (String × UInt32) :=
  [("c7_limit", c.arbitrator.c7Limit), ("c20_limit", c.arbitrator.c20Limit),
    ("c100_limit", c.participant.c100Limit), ("c101_limit", c.participant.c101Limit),
    ("c104_limit", c.participant.c104Limit)]

/-- The first rule that the configuration breaks. -/
def fault? (c : SessionConfig) : Option ConfigFault :=
  match c.limits.find? (·.2 = 0) with
  | some (name, _) => some (.zeroLimit name)
  | none =>
    if c.arbitrator.queueCapacity = 0 ∧ c.arbitrator.queueingSupported then some .zeroCapacity
    else none

structure Usable (c : SessionConfig) : Prop where
  c7 : c.arbitrator.c7Limit ≠ 0
  c20 : c.arbitrator.c20Limit ≠ 0
  c100 : c.participant.c100Limit ≠ 0
  c101 : c.participant.c101Limit ≠ 0
  c104 : c.participant.c104Limit ≠ 0
  capacity : c.arbitrator.queueingSupported = true → c.arbitrator.queueCapacity ≠ 0

theorem fault?_eq_none_iff (c : SessionConfig) : c.fault? = none ↔ c.Usable := by
  constructor
  · intro h
    simp only [fault?] at h
    split at h
    · simp at h
    · next hlimits =>
      simp only [limits, List.find?_eq_none, List.mem_cons, List.not_mem_nil, or_false,
        decide_eq_true_eq, forall_eq_or_imp, forall_eq] at hlimits
      obtain ⟨h7, h20, h100, h101, h104⟩ := hlimits
      refine ⟨h7, h20, h100, h101, h104, fun hq hc => ?_⟩
      simp [hq, hc] at h
  · rintro ⟨h7, h20, h100, h101, h104, hc⟩
    have hlimits : c.limits.find? (·.2 = 0) = none := by
      simp [limits, h7, h20, h100, h101, h104]
    simp only [fault?, hlimits]
    rw [if_neg]
    rintro ⟨h0, hq⟩
    exact hc hq h0

end SessionConfig
end FloorControl
