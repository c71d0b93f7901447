import FloorControl.Proofs.LiveTickets

/-!
# What a party leaves behind

A party that leaves a call does not take out of the scheduler what waits for it. That is dropped as
long as the party is away. If it comes back first, it is handed what was meant for its former self,
and cannot tell: its timers count their generations anew, and a message does not say to whom it was
sent. This module says exactly what of that is heeded, and that nothing else disturbs the timers of
a party that has come back.
-/

namespace FloorControl

namespace Participant

/-- Whether a message that comes in changes anything at a participant, or is answered. -/
def heeds (message : Message) (p : Participant) : Bool :=
  p.state ≠ .startStop && (message.requiresAck ||
    match p.state, message with
    | .pendingRequest, .granted .. | .pendingRequest, .denied ..
    | .pendingRequest, .queuePositionInfo .. => true
    | .queued, .granted .. => !p.grantPending
    | .queued, .denied .. | .queued, .idle .. => true
    | .queued, .queuePositionInfo _ position _ => p.t104.running || p.position ≠ some position
    | .queued, .revoke .. => p.grantPending
    | .hasPermission, .revoke .. | .hasPermission, .idle .. => true
    | .hasPermission, .taken talker dual _ =>
      if talker = p.ssrc then p.overridden else !dual || !p.overridden
    | .pendingRelease, .idle .. | .pendingRelease, .taken .. | .pendingRelease, .denied .. => true
    | .idle, .granted talker .. => talker = p.ssrc
    | .idle, .idle .. => p.talker.isSome
    | .pendingRequest, .taken talker .. | .queued, .taken talker .. | .idle, .taken talker .. =>
      p.talker ≠ some talker
    | _, _ => false)

section Heeds

variable {message : Message} {p : Participant}

theorem heeds_of_startStop (hstate : p.state = .startStop) : p.heeds message = false := by
  rw [heeds.eq_def, hstate]
  rfl

theorem heeds_of_requiresAck (hstate : p.state ≠ .startStop)
    (hasks : message.requiresAck = true) : p.heeds message = true := by
  rw [heeds.eq_def, hasks, decide_eq_true hstate]
  rfl

theorem heeds_of_pendingRequest (hstate : p.state = .pendingRequest) : p.heeds message =
    (message.requiresAck || match message with
      | .granted .. | .denied .. | .queuePositionInfo .. => true
      | .taken talker .. => p.talker ≠ some talker
      | _ => false) := by
  rw [heeds.eq_def, hstate]
  cases message <;> rfl

theorem heeds_of_queued (hstate : p.state = .queued) : p.heeds message =
    (message.requiresAck || match message with
      | .granted .. => !p.grantPending
      | .denied .. | .idle .. => true
      | .queuePositionInfo _ position _ => p.t104.running || p.position ≠ some position
      | .revoke .. => p.grantPending
      | .taken talker .. => p.talker ≠ some talker
      | _ => false) := by
  rw [heeds.eq_def, hstate]
  cases message <;> rfl

theorem heeds_of_hasPermission (hstate : p.state = .hasPermission) : p.heeds message =
    (message.requiresAck || match message with
      | .revoke .. | .idle .. => true
      | .taken talker dual _ => if talker = p.ssrc then p.overridden else !dual || !p.overridden
      | _ => false) := by
  rw [heeds.eq_def, hstate]
  cases message <;> rfl

theorem heeds_of_pendingRelease (hstate : p.state = .pendingRelease) : p.heeds message =
    (message.requiresAck || match message with
      | .idle .. | .taken .. | .denied .. => true
      | _ => false) := by
  rw [heeds.eq_def, hstate]
  cases message <;> rfl

theorem heeds_of_idle (hstate : p.state = .idle) : p.heeds message =
    (message.requiresAck || match message with
      | .granted talker .. => talker = p.ssrc
      | .idle .. => p.talker.isSome
      | .taken talker .. => p.talker ≠ some talker
      | _ => false) := by
  rw [heeds.eq_def, hstate]
  cases message <;> rfl

end Heeds

/-- What is sent is not taken back. -/
private theorem ne_nil_of_acknowledged {message : Message} {p : Participant}
    (hstate : p.state ≠ .startStop) (hasks : message.requiresAck = true) :
    (receive message ⟨p, {}⟩).out.messages ≠ [] := by
  have hacked : (acknowledge message ⟨p, {}⟩).out.messages ≠ [] := by
    simp [acknowledge, hasks]
  simp only [receive]
  split
  · next hstart => exact absurd hstart hstate
  · cases message <;> simpa [receivePendingRequest] using hacked
  · cases message with
    | granted =>
      simp only [receiveQueued]
      split <;> exact hacked
    | revoke =>
      simp only [receiveQueued]
      split
      · simp
      · exact hacked
    | _ => simpa [receiveQueued] using hacked
  · cases message with
    | taken =>
      simp only [receiveHasPermission]
      split
      · exact hacked
      · split
        · exact hacked
        · simpa using hacked
    | revoke => simp [receiveHasPermission]
    | _ => simpa [receiveHasPermission] using hacked
  · cases message <;> simpa [receivePendingRelease] using hacked
  · cases message with
    | granted =>
      simp only [receiveIdle]
      split
      · simp
      · exact hacked
    | _ => simpa [receiveIdle] using hacked

variable {p : Participant} {t : Turn Participant} {message : Message}

private theorem ne_of_state_ne (h : t.machine.state ≠ p.state) : t ≠ ⟨p, {}⟩ :=
  fun heq => h (congrArg (·.machine.state) heq)

private theorem update_eq_self_iff (f : Participant → Participant) :
    Turn.update f ⟨p, {}⟩ = ⟨p, {}⟩ ↔ f p = p := by
  simp [Turn.update]

private theorem talker_eq_self_iff (talker : Option Ssrc) :
    { p with talker := talker } = p ↔ p.talker = talker := by
  cases p
  simp [eq_comm]

private theorem stop_eq_self_iff (timer : Timer) : timer.stop = timer ↔ timer.running = false := by
  cases hruns : timer.running with
  | true =>
    refine iff_of_false (fun heq => ?_) nofun
    have hstopped := timer.running_stop
    rw [heq, hruns] at hstopped
    cases hstopped
  | false => simp [Timer.stop, hruns]

private theorem receivePendingRequest_eq_self_iff (hstate : p.state = .pendingRequest)
    (hasks : message.requiresAck = false) :
    receivePendingRequest message ⟨p, {}⟩ = ⟨p, {}⟩ ↔ p.heeds message = false := by
  cases message with
  | granted | denied | queuePositionInfo =>
    refine iff_of_false (ne_of_state_ne ?_) (by simp [heeds_of_pendingRequest hstate])
    simp [receivePendingRequest, hstate]
  | taken talker =>
    simp only [receivePendingRequest, update_eq_self_iff, talker_eq_self_iff]
    simp [heeds_of_pendingRequest hstate, hasks]
  | _ => simp [receivePendingRequest, heeds_of_pendingRequest hstate, hasks]

private theorem receiveQueued_eq_self_iff (hstate : p.state = .queued)
    (hasks : message.requiresAck = false) :
    receiveQueued message ⟨p, {}⟩ = ⟨p, {}⟩ ↔ p.heeds message = false := by
  cases message with
  | granted =>
    simp only [receiveQueued]
    split
    · next hpending => simp [heeds_of_queued hstate, hasks, hpending]
    · next hpending =>
      refine iff_of_false (fun heq => hpending ?_) (by simp [heeds_of_queued hstate, hpending])
      exact (congrArg (·.machine.grantPending) heq).symm
  | denied | idle =>
    refine iff_of_false (ne_of_state_ne ?_) (by simp [heeds_of_queued hstate])
    simp [receiveQueued, hstate]
  | queuePositionInfo _ position =>
    have hsame : { p with t104 := p.t104.stop, position := some position } = p ↔
        p.t104.stop = p.t104 ∧ p.position = some position := by
      cases p
      simp [eq_comm, and_comm]
    simp only [receiveQueued, update_eq_self_iff, hsame, stop_eq_self_iff]
    simp [heeds_of_queued hstate, hasks]
  | revoke =>
    simp only [receiveQueued]
    split
    · next hpending =>
      exact iff_of_false (ne_of_state_ne (by simp [hstate]))
        (by simp [heeds_of_queued hstate, hpending])
    · next hpending => simp [heeds_of_queued hstate, hasks, hpending]
  | taken talker =>
    simp only [receiveQueued, update_eq_self_iff, talker_eq_self_iff]
    simp [heeds_of_queued hstate, hasks]
  | _ => simp [receiveQueued, heeds_of_queued hstate, hasks]

private theorem receiveHasPermission_eq_self_iff (hstate : p.state = .hasPermission)
    (hasks : message.requiresAck = false) :
    receiveHasPermission message ⟨p, {}⟩ = ⟨p, {}⟩ ↔ p.heeds message = false := by
  cases message with
  | revoke | idle =>
    refine iff_of_false (ne_of_state_ne ?_) (by simp [heeds_of_hasPermission hstate])
    simp [receiveHasPermission, hstate]
  | taken talker dual =>
    have hsame (overridden : Bool) :
        { p with overridden := overridden } = p ↔ p.overridden = overridden := by
      cases p
      simp [eq_comm]
    simp only [receiveHasPermission]
    split
    · next hown =>
      subst hown
      rw [update_eq_self_iff, hsame]
      simp [heeds_of_hasPermission hstate, hasks]
    · next hother =>
      split
      · next hdual =>
        subst hdual
        rw [update_eq_self_iff, hsame]
        simp [heeds_of_hasPermission hstate, hasks, hother]
      · next hdual =>
        refine iff_of_false (ne_of_state_ne (by simp [hstate])) ?_
        simp [heeds_of_hasPermission hstate, hother, hdual]
  | _ => simp [receiveHasPermission, heeds_of_hasPermission hstate, hasks]

private theorem receivePendingRelease_eq_self_iff (hstate : p.state = .pendingRelease)
    (hasks : message.requiresAck = false) :
    receivePendingRelease message ⟨p, {}⟩ = ⟨p, {}⟩ ↔ p.heeds message = false := by
  cases message with
  | denied | idle | taken =>
    refine iff_of_false (ne_of_state_ne ?_) (by simp [heeds_of_pendingRelease hstate])
    simp [receivePendingRelease, hstate]
  | _ => simp [receivePendingRelease, heeds_of_pendingRelease hstate, hasks]

private theorem receiveIdle_eq_self_iff (hstate : p.state = .idle)
    (hasks : message.requiresAck = false) :
    receiveIdle message ⟨p, {}⟩ = ⟨p, {}⟩ ↔ p.heeds message = false := by
  cases message with
  | granted talker =>
    simp only [receiveIdle]
    split
    · next hown =>
      exact iff_of_false (ne_of_state_ne (by simp [hstate])) (by simp [heeds_of_idle hstate, hown])
    · next hother => simp [heeds_of_idle hstate, hasks, hother]
  | taken talker =>
    simp only [receiveIdle, update_eq_self_iff, talker_eq_self_iff]
    simp [heeds_of_idle hstate, hasks]
  | idle =>
    simp only [receiveIdle, update_eq_self_iff, talker_eq_self_iff]
    simp [heeds_of_idle hstate, hasks]
  | _ => simp [receiveIdle, heeds_of_idle hstate, hasks]

theorem receive_eq_self_iff (message : Message) (p : Participant) :
    receive message ⟨p, {}⟩ = ⟨p, {}⟩ ↔ p.heeds message = false := by
  by_cases hstart : p.state = .startStop
  · simp [receive, heeds_of_startStop, hstart]
  cases hasks : message.requiresAck with
  | true =>
    refine iff_of_false (fun heq => ?_) (by simp [heeds_of_requiresAck hstart hasks])
    exact ne_nil_of_acknowledged hstart hasks (congrArg (·.out.messages) heq)
  | false =>
    have hunasked : acknowledge message ⟨p, {}⟩ = ⟨p, {}⟩ := by simp [acknowledge, hasks]
    simp only [receive, hunasked]
    split
    · next hstate => exact absurd hstate hstart
    · next hstate => exact receivePendingRequest_eq_self_iff hstate hasks
    · next hstate => exact receiveQueued_eq_self_iff hstate hasks
    · next hstate => exact receiveHasPermission_eq_self_iff hstate hasks
    · next hstate => exact receivePendingRelease_eq_self_iff hstate hasks
    · next hstate => exact receiveIdle_eq_self_iff hstate hasks

/-- A ticket that a timer accepts never leaves that timer as it was. -/
private theorem expire_ne_self {ssrc : Ssrc} {config : ParticipantConfig} {ticket : Ticket}
    (hmake : p.timers.map Timer.make = makes ssrc config) {timer : Timer}
    (htimer : timer ∈ p.timers) (haccepts : timer.accepts ticket = true) :
    expire ticket ⟨p, {}⟩ ≠ ⟨p, {}⟩ := by
  intro heq
  have hdistinct : Winding.Distinct (p.timers.map (Timer.offer ticket)) := by
    have hoffered : (p.timers.map (Timer.offer ticket)).map Timer.make = makes ssrc config := by
      rw [List.map_map, ← hmake]
      exact List.map_congr_left fun t _ => t.make_offer ticket
    exact .of_map_make hoffered (by simp [makes])
  have hacts := acts_expire ticket (t := ⟨p, {}⟩) hmake
  rw [heq] at hacts
  obtain ⟨i, hi⟩ := List.getElem?_of_mem htimer
  obtain ⟨offered, hoffered, hgoes⟩ := hacts.goes hdistinct (i := i) hi
  rw [List.getElem?_map, hi, Option.map_some, Option.some.injEq] at hoffered
  subst hoffered
  have hsame := hgoes.still (Timer.generation_offer ticket timer).symm
  rw [Timer.offer_of_accepts haccepts] at hsame
  have hruns := ((Timer.accepts_iff _ _).mp haccepts).1
  rw [hsame, Timer.running_rest] at hruns
  cases hruns

/-- A ticket that no timer accepts is worth nothing. -/
theorem expire_of_refused {ticket : Ticket}
    (h : ∀ timer ∈ t.machine.timers, timer.accepts ticket = false) : expire ticket t = t := by
  simp only [timers, List.forall_mem_cons] at h
  obtain ⟨h100, h101, h104, h132, -⟩ := h
  simp only [expire, h100, h101, h104, h132]
  split <;> rfl

theorem expire_eq_self_iff {ssrc : Ssrc} {config : ParticipantConfig} (ticket : Ticket)
    (hmake : p.timers.map Timer.make = makes ssrc config) :
    expire ticket ⟨p, {}⟩ = ⟨p, {}⟩ ↔ p.timers.any (·.accepts ticket) = false := by
  cases haccepted : p.timers.any (·.accepts ticket) with
  | true =>
    obtain ⟨timer, htimer, haccepts⟩ := List.any_eq_true.mp haccepted
    exact iff_of_false (expire_ne_self hmake htimer haccepts) nofun
  | false =>
    refine iff_of_true (expire_of_refused fun timer htimer => ?_) rfl
    simpa using List.any_eq_false.mp haccepted timer htimer

end Participant

/-- What is known of a party stays as it is. -/
theorem Roster.modify_of_get? {α : Type} {roster : Roster α} {ssrc : Ssrc} {a : α}
    (h : roster.get? ssrc = some a) : roster.modify ssrc (fun _ => a) = roster := by
  obtain ⟨e, hfound, rfl⟩ := Option.map_eq_some_iff.mp h
  have hmem := List.mem_of_find?_eq_some hfound
  have hkey : e.1 = ssrc := by simpa using List.find?_some hfound
  have hnodup : (roster.entries.map Prod.fst).Nodup := roster.ascending.imp UInt32.ne_of_lt
  have hsame : roster.entries.map (fun x => (x.1, if x.1 = ssrc then e.2 else x.2)) =
      roster.entries := by
    refine (List.map_congr_left fun x hx => ?_).trans roster.entries.map_id
    split
    · next hx' =>
      obtain rfl := List.inj_on_of_nodup_map hnodup hx hmem (hx'.trans hkey.symm)
      rfl
    · rfl
  simp only [modify, mapWith, hsame]

namespace Session

variable {r : Run} {out : Outbox} {ssrc : Ssrc} {p : Participant}

private theorem length_log_told (events : List FloorEvent) (r : Run) :
    (events.foldl (fun r event => tell event r) r).log.length = r.log.length + events.length := by
  induction events generalizing r with
  | nil => rfl
  | cons event events ih =>
    rw [List.foldl_cons, ih, List.length_cons]
    simp only [tell, List.length_cons]
    omega

/-- Nothing is changed by the turn of a participant that leaves it as it is and wants nothing done.
Everything else leaves its mark on the call. -/
private theorem takes_eq_self_iff {u : Turn Participant}
    (hget : r.state.participants.get? ssrc = some p) :
    dispatch u.out (setParticipant ssrc u.machine r) = r ↔ u = ⟨p, {}⟩ := by
  constructor
  · intro heq
    have hstate := state_dispatch u.out (setParticipant ssrc u.machine r)
    rw [heq] at hstate
    have hmachine : u.machine = p := by
      have hsame := congrArg (fun s : Session => s.participants.get? ssrc) hstate
      simp only [setParticipant, Roster.get?_modify, if_pos, hget, Option.map_some] at hsame
      exact (Option.some.inj hsame).symm
    have hwishes : wishes r.state.config.linkDelay.toNat u.out = [] := by
      have hsame := congrArg (fun s : Session => s.scheduler.seq) hstate
      simp only [Scheduler.seq_scheduleEach, setParticipant] at hsame
      exact List.eq_nil_of_length_eq_zero (by omega)
    rw [wishes, List.append_eq_nil_iff, List.map_eq_nil_iff, List.map_eq_nil_iff] at hwishes
    have hevents : u.out.events = [] := by
      have hsame := congrArg (·.log.length) heq
      simp only [dispatch, hwishes.1, hwishes.2, List.foldl_nil, length_log_told, setParticipant]
        at hsame
      exact List.eq_nil_of_length_eq_zero (by omega)
    obtain ⟨machine, messages, timers, events⟩ := u
    simp only at hmachine hwishes hevents
    rw [hmachine, hwishes.1, hwishes.2, hevents]
  · rintro rfl
    rw [setParticipant, Roster.modify_of_get? hget]
    rfl

def heeded (p : Participant) : SessionEvent → Bool
  | .expiry ticket => p.timers.any (·.accepts ticket)
  | .toParticipant _ message => p.heeds message
  | .toArbitrator _ => false

variable {config : SessionConfig} {phase : Phase} {h : History} {event : SessionEvent}
  {input : Participant.Input}

/-- What is handed to a party does not reach the arbitrator, and changes nothing at all unless it is
heeded. -/
private theorem deliver_eq_self_iff (hmade : Made config r.state.machines.clocks)
    (hget : r.state.participants.get? ssrc = some p) (hmeant : event.input? ssrc = some input) :
    (deliver event r).state.arbitrator = r.state.arbitrator ∧
      (deliver event r = r ↔ heeded p event = false) := by
  have hmake := hmade.participant hget
  cases event with
  | expiry ticket =>
    simp only [SessionEvent.input?, Option.ite_none_right_eq_some] at hmeant
    simp only [deliver, hmeant.1, onParticipant, hget]
    refine ⟨by rw [state_dispatch]; rfl, ?_⟩
    rw [takes_eq_self_iff hget]
    exact Participant.expire_eq_self_iff ticket hmake
  | toArbitrator message => cases hmeant
  | toParticipant receiver message =>
    simp only [SessionEvent.input?, Option.ite_none_right_eq_some] at hmeant
    obtain ⟨rfl, -⟩ := hmeant
    simp only [deliver, onParticipant, hget]
    refine ⟨by rw [state_dispatch]; rfl, ?_⟩
    rw [takes_eq_self_iff hget]
    exact Participant.receive_eq_self_iff message p

/-- A party that leaves and comes back finds in the scheduler what waited for its former self.
Whatever of that is handed to it does not reach the arbitrator, and changes nothing exactly if it is
not heeded: a ticket unless a timer that runs has drawn the same, a message unless it would change
the party, or be answered by it, if it had been sent to it. Apart from that its timers are
undisturbed: one that runs has one ticket of its own in the scheduler, which is due after its delay,
and no other ticket that it accepts was drawn since the party joined. -/
theorem leftover_without_effect_iff (hr : Reached config phase h r)
    (hactive : r.state.active = true) (hget : r.state.participants.get? ssrc = some p) :
    (∀ timer ∈ p.timers, timer.running = true → ∃ x start,
      r.state.scheduler.pending.filter (fun x =>
          h.enteredAt (.participant ssrc) < x.seq ∧ x.event = .expiry timer.ticket) = [x] ∧
        h.startedAt timer.ticket = some start ∧ start ≤ r.state.now ∧
        x.due = Time.after start timer.delay) ∧
    ∀ t x rest scheduler, r.state.scheduler.pending = x :: rest →
      r.state.scheduler.popDue t = some (x.event, scheduler) →
      (h.enteredAt (.participant ssrc) < x.seq → ∀ timer ∈ p.timers,
        timer.running = true → x.event = .expiry timer.ticket →
        ∃ start, h.startedAt timer.ticket = some start ∧ x.due = Time.after start timer.delay) ∧
      (x.seq ≤ h.enteredAt (.participant ssrc) → ∀ input, x.event.input? ssrc = some input →
        (deliver x.event
            { r with state := { r.state with scheduler := scheduler } }).state.arbitrator =
          r.state.arbitrator ∧
          (deliver x.event { r with state := { r.state with scheduler := scheduler } } =
              { r with state := { r.state with scheduler := scheduler } } ↔
            heeded p x.event = false)) := by
  have hs := hr.stage
  have htickets : ∀ timer ∈ p.timers, timer.running = true → ∃ x start,
      r.state.scheduler.pending.filter (fun x =>
          h.enteredAt (.participant ssrc) < x.seq ∧ x.event = .expiry timer.ticket) = [x] ∧
        h.startedAt timer.ticket = some start ∧ start ≤ r.state.now ∧
        x.due = Time.after start timer.delay := by
    intro timer htimer hruns
    have hwound := hs.wound (o := .participant ssrc) hactive
      (by rwa [clocks_of_get? (m := r.state.machines) hget])
    obtain ⟨x, start, hfilter, hstart, hdue⟩ := hwound.live hruns
    exact ⟨x, start, hfilter, hstart, hs.startedAt_le hstart, hdue⟩
  refine ⟨htickets, fun t x rest scheduler hpending hpop =>
    ⟨fun hown timer htimer hruns hevent => ?_, fun _ input hmeant => ?_⟩⟩
  · obtain ⟨y, start, hfilter, hstart, -, hdue⟩ := htickets timer htimer hruns
    have hmem : x ∈ [y] := by
      rw [← hfilter, List.mem_filter, hpending]
      exact ⟨List.mem_cons_self, by simp [hown, hevent]⟩
    obtain rfl := List.mem_singleton.mp hmem
    exact ⟨start, hstart, hdue⟩
  · exact deliver_eq_self_iff
      (r := { r with state := { r.state with scheduler := scheduler } }) hs.made hget hmeant

/-- A party comes back into a call, after which nobody joins. -/
private theorem exists_returned {r₀ : Run} {h₀ : History} {priority : Priority} {originator : Bool}
    {later : List Operation} (hr : Reached config .resting h₀ r₀)
    (hentered :
      Happening.entered? ⟨r₀.state, .operation (.join ssrc priority originator)⟩ = some ssrc)
    (hlater : play? later (perform (.join ssrc priority originator) r₀).2 = some r)
    (hstay : ∀ other priority originator, .join other priority originator ∉ later) :
    ∃ since : History, Reached config .resting
        (since ++ ⟨r₀.state, .operation (.join ssrc priority originator)⟩ :: h₀) r ∧
      History.enteredAt (.participant ssrc)
          (since ++ ⟨r₀.state, .operation (.join ssrc priority originator)⟩ :: h₀) =
        r₀.state.scheduler.seq := by
  have hjoined := hr.performed (.join ssrc priority originator) ⟨rfl, nofun⟩
  obtain ⟨since, hreached, hoperations⟩ := hjoined.exists_later hlater
  refine ⟨since, hreached, ?_⟩
  rw [History.enteredAt_append fun other priority originator hmem => ?_, History.enteredAt_cons,
    hentered, Option.map_some, if_pos rfl]
  rw [hoperations, List.mem_reverse] at hmem
  exact hstay other priority originator hmem

/-- A party has left a call and come back, and the next event was scheduled before it has. -/
private theorem exists_leftover (config : SessionConfig) (first later : List Operation) (t : Nat)
    (check : Run → SessionEvent → Scheduler SessionEvent → Bool)
    (hstay : ∀ other priority originator, .join other priority originator ∉ later)
    (hleaves : .leave 1 ∈ first)
    (hcheck : (play? first ⟨Session.create 1 .basic config 0, []⟩).any (fun r₀ =>
      Happening.entered? ⟨r₀.state, .operation (.join 1 5 true)⟩ = some 1 &&
        (play? later (perform (.join 1 5 true) r₀).2).any fun r =>
          r.state.active && r.state.scheduler.pending.head?.any fun x =>
            x.seq ≤ r₀.state.scheduler.seq && (r.state.scheduler.popDue t).any fun next =>
              check r next.1 next.2) = true) :
    ∃ h r x rest scheduler, Reached config .resting h r ∧ .leave 1 ∈ h.operations ∧
      r.state.active = true ∧ r.state.scheduler.pending = x :: rest ∧
      x.seq ≤ h.enteredAt (.participant 1) ∧
      r.state.scheduler.popDue t = some (x.event, scheduler) ∧
      check r x.event scheduler = true := by
  obtain ⟨r₀, hfirst, hcheck⟩ := (Option.any_eq_true _ _).mp hcheck
  rw [Bool.and_eq_true, decide_eq_true_eq] at hcheck
  obtain ⟨hentered, hcheck⟩ := hcheck
  obtain ⟨r, hlater, hcheck⟩ := (Option.any_eq_true _ _).mp hcheck
  rw [Bool.and_eq_true] at hcheck
  obtain ⟨hactive, hcheck⟩ := hcheck
  obtain ⟨x, hhead, hcheck⟩ := (Option.any_eq_true _ _).mp hcheck
  rw [Bool.and_eq_true, decide_eq_true_eq] at hcheck
  obtain ⟨hseq, hcheck⟩ := hcheck
  obtain ⟨⟨event, scheduler⟩, hpop, hcheck⟩ := (Option.any_eq_true _ _).mp hcheck
  obtain ⟨y, rest, hpending, -, rfl, -⟩ := Scheduler.popDue_eq_some hpop
  rw [hpending, List.head?_cons, Option.some.injEq] at hhead
  subst hhead
  obtain ⟨h₀, hr, hoperations⟩ := (Reached.created 1 .basic 0).play? hfirst
  obtain ⟨since, hreached, hjoined⟩ := exists_returned hr hentered hlater hstay
  have hleft : .leave 1 ∈ h₀.operations := by
    rw [hoperations]
    simpa [History.operations] using hleaves
  refine ⟨_, r, y, rest, scheduler, hreached, ?_, hactive, hpending, hjoined ▸ hseq, hpop, hcheck⟩
  refine (List.Sublist.filterMap _ ?_).subset hleft
  exact (List.sublist_cons_self _ h₀).trans (List.sublist_append_right since _)

def hurried : List Operation := [.join 1 5 true, .setUp 1, .push 1, .leave 1]

/-- The party that has come back wants nothing, and its former self does not repeat its request. -/
theorem leftover_without_effect_hurried :
    ∃ h r p x rest scheduler, Reached { linkDelay := 100 } .resting h r ∧
      .leave 1 ∈ h.operations ∧ r.state.active = true ∧ r.state.participants.get? 1 = some p ∧
      r.state.scheduler.pending = x :: rest ∧ x.seq ≤ h.enteredAt (.participant 1) ∧
      x.event = .expiry ⟨.participant 1, .t101, 1⟩ ∧
      r.state.scheduler.popDue 40 = some (x.event, scheduler) ∧
      deliver x.event { r with state := { r.state with scheduler := scheduler } } =
        { r with state := { r.state with scheduler := scheduler } } := by
  obtain ⟨h, r, x, rest, scheduler, hreached, hleft, hactive, hpending, hseq, hpop, hcheck⟩ :=
    exists_leftover { linkDelay := 100 } hurried [.setUp 1, .advanceTo 20] 40
      (fun r event _ => event = .expiry ⟨.participant 1, .t101, 1⟩ &&
        (r.state.participants.get? 1).any fun p => !heeded p event)
      (by simp) (by simp [hurried]) (by decide +kernel)
  rw [Bool.and_eq_true, decide_eq_true_eq] at hcheck
  obtain ⟨hticket, hcheck⟩ := hcheck
  obtain ⟨p, hget, hignored⟩ := (Option.any_eq_true _ _).mp hcheck
  have hmeant : x.event.input? 1 = some (.expire ⟨.participant 1, .t101, 1⟩) := by
    rw [hticket]
    rfl
  have heffect := ((leftover_without_effect_iff hreached hactive hget).2 40 x rest scheduler
    hpending hpop).2 hseq _ hmeant
  exact ⟨h, r, p, x, rest, scheduler, hreached, hleft, hactive, hget, hpending, hseq, hticket, hpop,
    heffect.2.mpr (by simpa using hignored)⟩

/-- One of two parties asks for the floor, and leaves the call when the floor is on its way to
it. -/
def fickle : List Operation :=
  [.join 1 5 true, .join 2 5 false, .setUpAll, .push 1, .advanceTo 10, .leave 1]

/-- In a call of the configuration a party has left and come back, and what comes out of the
scheduler next, up to some time, was meant for its former self and is not without effect. -/
def Disturbed (config : SessionConfig) (input : Participant.Input) (t : Nat) : Prop :=
  ∃ h r x rest scheduler, Reached config .resting h r ∧ .leave 1 ∈ h.operations ∧
    r.state.active = true ∧ (r.state.participants.get? 1).isSome = true ∧
    r.state.scheduler.pending = x :: rest ∧ x.seq ≤ h.enteredAt (.participant 1) ∧
    x.event.input? 1 = some input ∧ r.state.scheduler.popDue t = some (x.event, scheduler) ∧
    deliver x.event { r with state := { r.state with scheduler := scheduler } } ≠
      { r with state := { r.state with scheduler := scheduler } }

private theorem disturbed_of_play? (first later : List Operation) {t : Nat}
    (hstay : ∀ other priority originator, .join other priority originator ∉ later)
    (hleaves : .leave 1 ∈ first)
    (hcheck : (play? first ⟨Session.create 1 .basic config 0, []⟩).any (fun r₀ =>
      Happening.entered? ⟨r₀.state, .operation (.join 1 5 true)⟩ = some 1 &&
        (play? later (perform (.join 1 5 true) r₀).2).any fun r =>
          r.state.active && r.state.scheduler.pending.head?.any fun x =>
            x.seq ≤ r₀.state.scheduler.seq && (r.state.scheduler.popDue t).any fun next =>
              (r.state.participants.get? 1).isSome && next.1.input? 1 = some input &&
                (deliver next.1 { r with
                  state := { r.state with scheduler := next.2 } }).state.scheduler.seq !=
                    next.2.seq) = true) :
    Disturbed config input t := by
  obtain ⟨h, r, x, rest, scheduler, hreached, hleft, hactive, hpending, hseq, hpop, hcheck⟩ :=
    exists_leftover config first later t (fun r event scheduler =>
      (r.state.participants.get? 1).isSome && event.input? 1 = some input &&
        (deliver event { r with
          state := { r.state with scheduler := scheduler } }).state.scheduler.seq != scheduler.seq)
      hstay hleaves hcheck
  simp only [Bool.and_eq_true, decide_eq_true_eq, bne_iff_ne] at hcheck
  obtain ⟨⟨hpresent, hmeant⟩, hmore⟩ := hcheck
  exact ⟨h, r, x, rest, scheduler, hreached, hleft, hactive, hpresent, hpending, hseq, hmeant, hpop,
    fun heq => hmore (congrArg (·.state.scheduler.seq) heq)⟩

/-- A party that has come back asks again, and when its former self would have repeated its request,
it repeats its own. A party that has come back is handed the floor that was on its way to its former
self, and gives it back. -/
theorem leftovers_disturb :
    Disturbed { linkDelay := 100 } (.expire ⟨.participant 1, .t101, 1⟩) 40 ∧
      Disturbed { linkDelay := 10 } (.receive (.granted 1 5 30000 false false)) 20 :=
  ⟨disturbed_of_play? hurried [.setUp 1, .advanceTo 20, .push 1] (by simp) (by simp [hurried])
      (by decide +kernel),
    disturbed_of_play? fickle [.setUp 1] (by simp) (by simp [fickle]) (by decide +kernel)⟩

end Session
end FloorControl
