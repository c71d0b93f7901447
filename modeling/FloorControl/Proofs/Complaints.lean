import FloorControl.Proofs.Delivery
import FloorControl.Proofs.Upkeep

/-!
# What is told of failures

The observers of a call hear of a failure only from a machine that gives up, and it gives up only
with a ticket that its timer accepts: a participant when it has repeated a message often enough or
its user has not accepted the floor, the arbitrator when T20 runs out. No operation, no message and
no other ticket makes a machine tell of a failure, and only the arbitrator ever blames a talker for
an acknowledgement that did not come.
-/

namespace FloorControl

structure Outbox.Calm (out : Outbox) : Prop where
  letters : ∀ e ∈ out.messages, e.message.blames = false
  events : ∀ event ∈ out.events, event.ordinary = true

theorem Outbox.calm_empty : Outbox.Calm {} := ⟨by simp, by simp⟩

namespace Arbitrator

/-- The arbitrator has revoked the floor for other reasons only. -/
theorem upheld_cause : Upheld fun t => t.machine.revokeCause ≠ .noResources where
  update _ hmild h := hmild.cause.elim (fun hsame => hsame ▸ h) id
  post _ _ h := h
  moved _ _ h := h
  arm _ h := h

/-- A turn of an arbitrator that does not blame anybody and tells of no failure. -/
theorem upheld_calm : Upheld fun t => t.machine.revokeCause ≠ .noResources ∧ t.out.Calm where
  update f hmild h := ⟨upheld_cause.update f hmild h.1, h.2⟩
  post letters hletters h := by
    refine ⟨h.1, fun e he => ?_, h.2.events⟩
    rcases List.mem_append.mp he with he | he
    · exact h.2.letters e he
    · exact Bool.eq_false_iff.mpr fun hblames => h.1 (hletters e he hblames)
  moved _ _ h := by
    refine ⟨h.1, h.2.letters, fun event hevent => ?_⟩
    rcases List.mem_append.mp hevent with hevent | hevent
    · exact h.2.events event hevent
    · rw [List.mem_singleton.mp hevent]
      rfl
  arm _ h := ⟨h.1, h.2.letters, h.2.events⟩

variable {a : Arbitrator} {t u : Turn Arbitrator}

theorem calm_onDual_grant (who : Talker) (others : List Ssrc) (h : t.out.Calm) :
    (onDual (DualFloor.grant who others) t).out.Calm := by
  have hmessages := messages_onDual_grant (t := t) who others
  constructor
  · intro e he
    rw [hmessages] at he
    rcases List.mem_append.mp he with he | he
    · exact h.letters e he
    · rcases List.mem_cons.mp he with rfl | he
      · rfl
      · obtain ⟨ssrc, -, rfl⟩ := List.mem_map.mp he
        rfl
  · have hevents : (onDual (DualFloor.grant who others) t).out.events = t.out.events := by
      simp only [onDual, DualFloor.grant]
      split <;> rfl
    rw [hevents]
    exact h.events

theorem cause_expireT20 (ticket : Ticket) :
    (expireT20 ticket t).machine.revokeCause = t.machine.revokeCause := by
  simp only [expireT20]
  split
  · rw [Turn.machine_tell, machine_sendTo]
  all_goals rfl

theorem cause_receive (message : Message) (h : t.machine.revokeCause ≠ .noResources) :
    (receive message t).machine.revokeCause ≠ .noResources := by
  rcases upheld_cause.receive message h with h' | ⟨r, -, -, -, -, heq⟩
  · exact h'
  · rw [heq]
    exact h

theorem cause_expire (ticket : Ticket) (h : t.machine.revokeCause ≠ .noResources) :
    (expire ticket t).machine.revokeCause ≠ .noResources := by
  rcases upheld_cause.expire ticket h with h' | ⟨-, heq⟩
  · exact h'
  · rw [heq, cause_expireT20]
    exact h

theorem Takes.cause (htakes : Takes t u) (h : t.machine.revokeCause ≠ .noResources) :
    u.machine.revokeCause ≠ .noResources := by
  cases htakes with
  | initialized hu => exact upheld_cause.callInitialized h hu
  | implicitRequest hu => exact upheld_cause.implicitFloorRequest h hu
  | left hu => exact upheld_cause.clientRelease h hu
  | received message => exact cause_receive message h
  | begun => exact upheld_cause.beginRelease h
  | finished => exact upheld_cause.finishRelease h

theorem calm_receive (message : Message) (hcause : a.revokeCause ≠ .noResources) :
    (receive message ⟨a, {}⟩).out.Calm := by
  have hbefore : a.revokeCause ≠ .noResources ∧ Outbox.Calm {} := ⟨hcause, Outbox.calm_empty⟩
  rcases upheld_calm.receive (t := ⟨a, {}⟩) message hbefore with h | ⟨r, -, -, -, -, heq⟩
  · exact h.2
  · rw [heq]
    exact calm_onDual_grant _ _ Outbox.calm_empty

/-- Only when T20 runs out somebody is blamed. -/
theorem calm_expire (ticket : Ticket) (hcause : a.revokeCause ≠ .noResources) :
    (expire ticket ⟨a, {}⟩).out.Calm ∨ a.dual.t20.accepts ticket = true :=
  (upheld_calm.expire (t := ⟨a, {}⟩) ticket ⟨hcause, Outbox.calm_empty⟩).imp And.right And.left

private theorem events_sendTo (ssrc : Ssrc) (message : Message) :
    (sendTo ssrc message t).out.events = t.out.events := by
  simp only [sendTo]
  split <;> rfl

private theorem events_expire_dual (d : DualFloor) (ticket : Ticket) :
    (DualFloor.expire ticket ⟨d, {}⟩).2.out.events = [] := by
  simp only [DualFloor.expire, DualFloor.resendGrant]
  split
  · rfl
  · split
    · rfl
    · split
      · rfl
      · split <;> rfl

/-- The arbitrator tells of no failure but that of an acknowledgement. -/
theorem failure_expire (ticket : Ticket) (hcause : a.revokeCause ≠ .noResources) :
    ∀ event ∈ (expire ticket ⟨a, {}⟩).out.events, event.ordinary = true ∨
      ∃ call ssrc, event = .failure call ssrc .dualGrantUnacknowledged := by
  intro event hevent
  rcases upheld_calm.expire (t := ⟨a, {}⟩) ticket ⟨hcause, Outbox.calm_empty⟩ with h | ⟨-, heq⟩
  · exact .inl (h.2.events event hevent)
  · rw [heq] at hevent
    simp only [expireT20] at hevent
    split at hevent
    · rw [Turn.events_tell, events_sendTo, events_expire_dual, List.nil_append,
        List.mem_singleton] at hevent
      exact .inr ⟨_, _, hevent⟩
    all_goals
      rw [events_expire_dual] at hevent
      cases hevent

end Arbitrator

namespace Participant

variable {p : Participant} {x : Ssrc} {reason : FailureKind → Prop}

/-- A turn of a participant that blames nobody, and tells of its own failures only and only of those
that there is reason for. -/
structure Tells (x : Ssrc) (reason : FailureKind → Prop) (t : Turn Participant) : Prop where
  ssrc : t.machine.ssrc = x
  letters : ∀ e ∈ t.out.messages, e.message.blames = false
  events : ∀ event ∈ t.out.events,
    event.ordinary = true ∨ ∃ call kind, event = .failure call x kind ∧ reason kind

theorem upheld_tells (x : Ssrc) (reason : FailureKind → Prop) : Upheld (Tells x reason) where
  update _ hmild h := ⟨hmild.ssrc.trans h.ssrc, h.letters, h.events⟩
  post letters hletters h := by
    refine ⟨h.ssrc, fun e he => ?_, h.events⟩
    rcases List.mem_append.mp he with he | he
    · exact h.letters e he
    · exact hletters e he
  tell event _ hordinary h := by
    refine ⟨h.ssrc, h.letters, fun other hevent => ?_⟩
    rcases List.mem_append.mp hevent with hevent | hevent
    · exact h.events other hevent
    · exact .inl (List.mem_singleton.mp hevent ▸ hordinary)
  arm _ h := ⟨h.ssrc, h.letters, h.events⟩

theorem Tells.calm {t : Turn Participant} (h : Tells x (fun _ => False) t) : t.out.Calm :=
  ⟨h.letters, fun event hevent => (h.events event hevent).resolve_right (by simp)⟩

theorem tells_of_calm {out : Outbox} (h : out.Calm) :
    Tells p.ssrc (fun _ => False) ⟨p, out⟩ :=
  ⟨rfl, h.letters, fun event hevent => .inl (h.events event hevent)⟩

theorem calm_handle (input : Input) (hexpire : ∀ ticket, input ≠ .expire ticket) :
    (p.handle input).out.Calm :=
  ((upheld_tells p.ssrc _).handle input hexpire (tells_of_calm Outbox.calm_empty)).calm

/-- A participant tells of a failure when it gives up. -/
theorem tells_expire (ticket : Ticket) :
    Tells p.ssrc (p.Exhausts ticket) (expire ticket ⟨p, {}⟩) := by
  refine (upheld_tells p.ssrc (p.Exhausts ticket)).expire ticket (t := ⟨p, {}⟩)
    (fun kind hreason h => ⟨h.ssrc, h.letters, fun event hevent => ?_⟩)
    ⟨rfl, by simp, by simp⟩
  rcases List.mem_append.mp hevent with hevent | hevent
  · exact h.events event hevent
  · rw [List.mem_singleton.mp hevent, h.ssrc]
    exact .inr ⟨_, kind, rfl, hreason⟩

end Participant

namespace Session

variable {config : SessionConfig} {h : History} {s : Session} {m m' : Machines} {op : Operation}
  {outs : List Outbox} {out : Outbox}

private theorem calm_turnOutboxes {x : Ssrc} {input : Participant.Input}
    (hexpire : ∀ ticket, input ≠ .expire ticket) :
    ∀ out ∈ m.turnOutboxes x input, out.Calm := by
  intro out hout
  simp only [Machines.turnOutboxes] at hout
  split at hout
  · cases hout
  · rw [List.mem_singleton.mp hout]
    exact Participant.calm_handle _ hexpire

private theorem calm_setUpOutboxes (ssrcs : List Ssrc)
    (hcause : m.arbitrator.revokeCause ≠ .noResources) :
    ∀ out ∈ m.setUpOutboxes ssrcs, out.Calm := by
  induction ssrcs generalizing m with
  | nil => simp [Machines.setUpOutboxes]
  | cons x rest ih =>
    intro out hout
    simp only [Machines.setUpOutboxes] at hout
    split at hout
    · cases hout
    · next p hget =>
      have hcalm : (Participant.callInitialized ⟨p, {}⟩).out.Calm :=
        Participant.calm_handle .initialized (by simp)
      split at hout
      · cases hout
      · next u hu =>
        have hanswer := Arbitrator.upheld_calm.callInitialized
          (t := ⟨m.arbitrator, (Participant.callInitialized ⟨p, {}⟩).out⟩) ⟨hcause, hcalm⟩ hu
        rcases List.mem_cons.mp hout with rfl | hout
        · exact hanswer.2
        · exact ih hanswer.1 out hout

private theorem calm_establishOutboxes (x : Ssrc) (granted : Bool)
    (hcause : m.arbitrator.revokeCause ≠ .noResources) :
    ∀ out ∈ m.establishOutboxes x granted, out.Calm := by
  intro out hout
  simp only [Machines.establishOutboxes] at hout
  split at hout
  · cases hout
  · next p hget =>
    have hcalm : (Participant.callEstablished granted p.priority ⟨p, {}⟩).out.Calm :=
      Participant.calm_handle (.established granted p.priority) (by simp)
    split at hout
    · split at hout
      · cases hout
      · next u hu =>
        rw [List.mem_singleton.mp hout]
        exact (Arbitrator.upheld_calm.implicitFloorRequest
          (t := ⟨m.arbitrator, (Participant.callEstablished granted p.priority ⟨p, {}⟩).out⟩)
          ⟨hcause, hcalm⟩ hu).2
    · rw [List.mem_singleton.mp hout]
      exact hcalm

private theorem calm_leaveOutboxes (x : Ssrc) (hcause : m.arbitrator.revokeCause ≠ .noResources) :
    ∀ out ∈ m.leaveOutboxes x, out.Calm := by
  intro out hout
  simp only [Machines.leaveOutboxes] at hout
  split at hout
  · cases hout
  · next u hu =>
    have hcalm := (Arbitrator.upheld_calm.clientRelease (t := ⟨m.arbitrator, {}⟩)
      ⟨hcause, Outbox.calm_empty⟩ hu).2
    split at hout
    · rw [List.mem_singleton.mp hout]
      exact hcalm
    · next p hget =>
      rw [List.mem_singleton.mp hout]
      exact ((Participant.upheld_tells p.ssrc _).beginRelease
        (Participant.tells_of_calm hcalm)).calm

private theorem calm_releaseEach (ssrcs : List Ssrc) (participants : Roster Participant)
    (hcalm : out.Calm) : (releaseEach ssrcs participants out).2.Calm := by
  induction ssrcs generalizing participants out with
  | nil => exact hcalm
  | cons x rest ih =>
    simp only [releaseEach]
    split
    · exact ih _ hcalm
    · next p hget =>
      apply ih
      exact ((Participant.upheld_tells p.ssrc _).beginRelease
        (Participant.tells_of_calm hcalm)).calm

/-- No operation makes anybody tell of a failure. -/
theorem Operation.calm (op : Operation) (hcause : s.arbitrator.revokeCause ≠ .noResources) :
    ∀ out ∈ op.outboxes s, out.Calm := by
  intro out hout
  have hcause : s.machines.arbitrator.revokeCause ≠ .noResources := hcause
  simp only [Operation.outboxes] at hout
  split at hout
  · cases op with
    | setUp | setUpAll => exact calm_setUpOutboxes _ hcause out hout
    | establish x granted => exact calm_establishOutboxes x granted hcause out hout
    | push | releaseTalk | accept | askPosition | setDual | setIndicator =>
      exact calm_turnOutboxes (by simp) out hout
    | leave x => exact calm_leaveOutboxes x hcause out hout
    | release =>
      rw [List.mem_singleton.mp hout]
      apply calm_releaseEach
      exact (Arbitrator.upheld_calm.beginRelease (t := ⟨s.arbitrator, {}⟩)
        ⟨hcause, Outbox.calm_empty⟩).2
    | join | runUntilIdle | advanceTo | advanceBy => cases hout
  · cases hout

theorem cause_part (hpart : Part op m outs m') (h : m.arbitrator.revokeCause ≠ .noResources) :
    m'.arbitrator.revokeCause ≠ .noResources := by
  cases hpart with
  | arbitrator hmachine _ _ hadmits => exact hadmits.takes.cause (hmachine ▸ h)
  | participant | quiet => exact h
  | left _ hleaves => exact (Arbitrator.Takes.left hleaves).cause h
  | closed => exact Arbitrator.Takes.begun.cause h

theorem cause_delivers {event : SessionEvent} (hdelivers : Delivers m event outs m')
    (h : m.arbitrator.revokeCause ≠ .noResources) :
    m'.arbitrator.revokeCause ≠ .noResources := by
  cases hdelivers with
  | arbitratorTicket => exact Arbitrator.cause_expire _ h
  | arbitratorLetter message => exact Arbitrator.cause_receive message h
  | participantTicket | participantLetter | dropped => exact h

/-- A participant whose failure is told when an event is handed over has given up. -/
theorem exhausts_of_delivers {event : SessionEvent} {call : CallId} {x : Ssrc} {kind : FailureKind}
    (hdelivers : Delivers m event outs m') (hcause : m.arbitrator.revokeCause ≠ .noResources)
    (hkind : kind ≠ .dualGrantUnacknowledged) (hout : out ∈ outs)
    (hfailure : .failure call x kind ∈ out.events) :
    ∃ ticket y p, event = .expiry ticket ∧ m.participants.get? y = some p ∧ p.ssrc = x ∧
      p.Exhausts ticket kind := by
  have hcalm {out : Outbox} (h : out.Calm) : .failure call x kind ∉ out.events := fun hevent => by
    cases h.events _ hevent
  cases hdelivers with
  | @arbitratorTicket ticket =>
    rw [List.mem_singleton.mp hout] at hfailure
    rcases Arbitrator.failure_expire ticket hcause _ hfailure with hordinary | ⟨_, _, heq⟩
    · cases hordinary
    · cases heq
      exact absurd rfl hkind
  | arbitratorLetter message =>
    rw [List.mem_singleton.mp hout] at hfailure
    exact absurd hfailure (hcalm (Arbitrator.calm_receive message hcause))
  | @participantTicket ticket y p _ hget =>
    rw [List.mem_singleton.mp hout] at hfailure
    rcases (Participant.tells_expire (p := p) ticket).events _ hfailure with
      hordinary | ⟨_, _, heq, hreason⟩
    · cases hordinary
    · cases heq
      exact ⟨ticket, y, p, rfl, hget, rfl, hreason⟩
  | participantLetter message =>
    rw [List.mem_singleton.mp hout] at hfailure
    exact absurd hfailure (hcalm (Participant.calm_handle (.receive message) (by simp)))
  | dropped => cases hout

/-- The floor is never revoked from its holder for want of an acknowledgement. -/
theorem Stage.cause (hs : Stage config h s) : s.arbitrator.revokeCause ≠ .noResources := by
  induction hs with
  | created => exact (by decide : RevokeCause.preempted ≠ .noResources)
  | acted _ _ _ hparts ih =>
    exact hparts.keeps (P := fun m => m.arbitrator.revokeCause ≠ .noResources)
      (fun _ _ _ => cause_part) ih
  | joined _ _ hadded ih =>
    obtain ⟨-, proxy, rfl⟩ := Arbitrator.exists_insert_of_addParticipant hadded
    exact ih
  | delivered _ _ hdelivers ih => exact cause_delivers hdelivers ih
  | settled _ _ ih => exact ih
  | ended _ hdowned ih =>
    rw [hdowned.arbitrator]
    exact Arbitrator.Takes.finished.cause ih

def Happening.Tells (e : Happening) (entry : TraceEvent) : Prop :=
  entry.time = e.time ∧ ∃ out ∈ e.outboxes, entry.event ∈ out.events ∨ ∃ letter ∈ out.messages,
    entry.event = .messageSent e.before.callId letter.sender letter.receiver letter.message

private theorem tells_cons {last : Happening} {entry : TraceEvent} :
    (∃ e ∈ h, e.Tells entry) → ∃ e ∈ last :: h, e.Tells entry :=
  fun ⟨e, he, htells⟩ => ⟨e, List.mem_cons_of_mem _ he, htells⟩

private theorem of_mem_logged {r : Run} {entry : TraceEvent} (hentry : entry ∈ logged r outs) :
    entry ∈ r.log ∨ entry.time = r.state.now ∧ ∃ out ∈ outs, entry.event ∈ out.events ∨
      ∃ letter ∈ out.messages,
        entry.event = .messageSent r.state.callId letter.sender letter.receiver letter.message := by
  rw [logged, List.mem_append, List.mem_reverse, List.mem_flatMap] at hentry
  rcases hentry with ⟨out, hout, hentry⟩ | hentry
  · right
    rcases List.mem_append.mp hentry with hentry | hentry
    · obtain ⟨e, he, rfl⟩ := List.mem_map.mp hentry
      exact ⟨rfl, out, hout, .inr ⟨e, he, rfl⟩⟩
    · obtain ⟨event, hevent, rfl⟩ := List.mem_map.mp hentry
      exact ⟨rfl, out, hout, .inl hevent⟩
  · exact .inl hentry

private theorem events_finishRelease (a : Arbitrator) :
    ∀ event ∈ (Arbitrator.finishRelease ⟨a, {}⟩).out.events,
      ∃ call ssrc before after, event = .arbitratorMoved call ssrc before after := by
  intro event hevent
  simp only [Arbitrator.finishRelease, Arbitrator.moveTo, Arbitrator.startStateTimers] at hevent
  split at hevent
  · next hstate =>
    have hstate : a.state = .releasing := hstate
    simp [Turn.update, Turn.tell, hstate] at hevent
    exact ⟨_, _, _, _, hevent⟩
  · cases hevent

/-- Whatever the observers of a call were told, they were told when something happened, or that the
call is down. -/
theorem Reached.told {phase : Phase} {r : Run} (hr : Reached config phase h r) :
    ∀ entry ∈ r.log, (∃ e ∈ h, e.Tells entry) ∨ (∃ call, entry.event = .callReleased call) ∨
      ∃ call ssrc before after, entry.event = .arbitratorMoved call ssrc before after := by
  induction hr with
  | created => simp
  | @performed h r op _ hinstant ih =>
    intro entry hentry
    cases hentered : Happening.entered? ⟨r.state, .operation op⟩ with
    | none =>
      rw [(follows_perform op hinstant hentered).log] at hentry
      rcases of_mem_logged hentry with hentry | htells
      · exact (ih entry hentry).imp_left tells_cons
      · exact .inl ⟨_, List.mem_cons_self, htells⟩
    | some x =>
      refine (ih entry ?_).imp_left tells_cons
      cases op with
      | join y priority originator =>
        simp only [perform, join, whenActive] at hentry
        split at hentry
        · split at hentry
          · exact hentry
          · exact hentry
        · exact hentry
      | _ => cases hentered
  | started op _ _ ih =>
    intro entry hentry
    exact (ih entry hentry).imp_left tells_cons
  | @delivered phase h r t event scheduler _ _ hpop ih =>
    intro entry hentry
    rw [(delivers_deliver event { r with state := { r.state with scheduler := scheduler } }).2]
      at hentry
    rcases of_mem_logged hentry with hentry | ⟨htime, htells⟩
    · exact (ih entry hentry).imp_left tells_cons
    · exact .inl ⟨_, List.mem_cons_self, htime.trans (Scheduler.now_popDue hpop), htells⟩
  | settled _ _ ih => exact ih
  | @ending h r _ hactive ih =>
    intro entry hentry
    rw [(follows_beginRelease hactive).log] at hentry
    rcases of_mem_logged hentry with hentry | htells
    · exact (ih entry hentry).imp_left tells_cons
    · exact .inl ⟨_, List.mem_cons_self, htells⟩
  | @ended h r t _ _ ih =>
    intro entry hentry
    simp only [finishRelease, tell] at hentry
    rcases List.mem_cons.mp hentry with rfl | hentry
    · exact .inr (.inl ⟨_, rfl⟩)
    rw [log_dispatch] at hentry
    rcases of_mem_logged hentry with hentry | ⟨-, out, hout, htells⟩
    · exact ih entry hentry
    · rw [List.mem_singleton.mp hout] at htells
      rcases htells with hevent | ⟨letter, hletter, -⟩
      · exact .inr (.inr (events_finishRelease _ _ hevent))
      · rw [messages_finishRelease] at hletter
        cases hletter

end Session
end FloorControl
