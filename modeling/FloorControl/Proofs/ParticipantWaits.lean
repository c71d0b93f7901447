import FloorControl.Proofs.ParticipantConduct

/-!
# What a participant waits for

A participant that waits has the timer running that ends the wait, and outside of the wait that
timer does not run: T101 belongs to a request without an answer, T100 to a release without a
confirmation, T132 to a floor that the user has not accepted. The place in the queue and the two
marks of a second talker are tied to the states in which they mean something.
-/

namespace FloorControl.Participant

/-- What is set and what runs fits the state. -/
structure Waits (p : Participant) : Prop where
  asking : p.t101.running = true ↔ p.state = .pendingRequest
  returning : p.t100.running = true ↔ p.state = .pendingRelease
  deciding : p.t132.running = true ↔ p.grantPending = true
  pending : p.grantPending = true → p.state = .queued
  position : p.position.isSome = true ↔ p.state = .queued
  overlap : p.overriding = true ∨ p.overridden = true → p.state = .hasPermission

/-- Nothing is asked for, given back or to be accepted. -/
structure Free (p : Participant) : Prop where
  t101 : p.t101.running = false
  t100 : p.t100.running = false
  t132 : p.t132.running = false
  pending : p.grantPending = false
  position : p.position = none

variable {p : Participant} {t : Turn Participant}

theorem Waits.not_pending (hp : p.Waits) (hqueued : p.state ≠ .queued) :
    p.grantPending = false := by
  cases hgrant : p.grantPending with
  | false => rfl
  | true => exact absurd (hp.pending hgrant) hqueued

theorem Waits.free (hp : p.Waits) (hrequest : p.state ≠ .pendingRequest)
    (hrelease : p.state ≠ .pendingRelease) (hqueued : p.state ≠ .queued) : p.Free := by
  have hpending := hp.not_pending hqueued
  constructor
  · simpa [hrequest] using hp.asking
  · simpa [hrelease] using hp.returning
  · simpa [hpending] using hp.deciding
  · exact hpending
  · simpa [hqueued] using hp.position

theorem Waits.single (hp : p.Waits) (hstate : p.state ≠ .hasPermission) :
    p.overriding = false ∧ p.overridden = false := by
  constructor
  · cases hover : p.overriding with
    | false => rfl
    | true => exact absurd (hp.overlap (.inl hover)) hstate
  · cases hover : p.overridden with
    | false => rfl
    | true => exact absurd (hp.overlap (.inr hover)) hstate

/-- A request is settled when T101 no longer runs. -/
theorem Waits.free_of_pendingRequest (hp : p.Waits) (hstate : p.state = .pendingRequest)
    {timer : Timer} (htimer : timer.running = false) : Free { p with t101 := timer } := by
  have hpending := hp.not_pending (by simp [hstate])
  constructor
  · exact htimer
  · simpa [hstate] using hp.returning
  · simpa [hpending] using hp.deciding
  · exact hpending
  · simpa [hstate] using hp.position

/-- A release is settled when T100 no longer runs. -/
theorem Waits.free_of_pendingRelease (hp : p.Waits) (hstate : p.state = .pendingRelease)
    {timer : Timer} (htimer : timer.running = false) : Free { p with t100 := timer } := by
  have hpending := hp.not_pending (by simp [hstate])
  constructor
  · simpa [hstate] using hp.asking
  · exact htimer
  · simpa [hpending] using hp.deciding
  · exact hpending
  · simpa [hstate] using hp.position

theorem Waits.free_leaveQueue (hp : p.Waits) (hstate : p.state = .queued) :
    p.leaveQueue.Free := by
  constructor
  · simpa [leaveQueue, hstate] using hp.asking
  · simpa [leaveQueue, hstate] using hp.returning
  · simp [leaveQueue]
  · rfl
  · rfl

/-- What fits stays so while it keeps its state, its waits and its marks. -/
theorem Waits.congr {q : Participant} (hp : p.Waits) (hstate : q.state = p.state)
    (h101 : q.t101.running = p.t101.running) (h100 : q.t100.running = p.t100.running)
    (h132 : q.t132.running = p.t132.running) (hgrant : q.grantPending = p.grantPending)
    (hposition : q.position.isSome = p.position.isSome) (hover : q.overriding = p.overriding)
    (hoverridden : q.overridden = true → p.overridden = true) : q.Waits := by
  constructor
  · rw [h101, hstate]
    exact hp.asking
  · rw [h100, hstate]
    exact hp.returning
  · rw [h132, hgrant]
    exact hp.deciding
  · rw [hgrant, hstate]
    exact hp.pending
  · rw [hposition, hstate]
    exact hp.position
  · rw [hover, hstate]
    exact fun h => hp.overlap (h.imp_right hoverridden)

theorem Free.congr {q : Participant} (hfree : p.Free) (h101 : q.t101 = p.t101)
    (h100 : q.t100 = p.t100) (h132 : q.t132 = p.t132) (hgrant : q.grantPending = p.grantPending)
    (hposition : q.position = p.position) : q.Free := by
  constructor
  · rw [h101]
    exact hfree.t101
  · rw [h100]
    exact hfree.t100
  · rw [h132]
    exact hfree.t132
  · rw [hgrant]
    exact hfree.pending
  · rw [hposition]
    exact hfree.position

section Free

variable (hfree : t.machine.Free)

include hfree

theorem Free.waits_moveTo_idle (hsingle : t.machine.overriding = false ∧
    t.machine.overridden = false) : (moveTo .idle t).machine.Waits := by
  rw [machine_moveTo]
  constructor
  all_goals simp [hfree.t101, hfree.t100, hfree.t132, hfree.pending, hfree.position, hsingle]

theorem Free.waits_takeFloor : (takeFloor t).machine.Waits := by
  rw [machine_takeFloor]
  constructor
  all_goals simp [hfree.t101, hfree.t100, hfree.t132, hfree.pending, hfree.position]

theorem Free.waits_startRelease : (startRelease t).machine.Waits := by
  rw [machine_startRelease]
  constructor
  all_goals simp [hfree.t101, hfree.t132, hfree.pending, hfree.position]

theorem Free.waits_loseFloor (talker : Option Ssrc) : (loseFloor talker t).machine.Waits := by
  rw [machine_loseFloor]
  constructor
  all_goals simp [hfree.t101, hfree.t100, hfree.t132, hfree.pending, hfree.position]

end Free

private theorem waits_callInitialized (hp : t.machine.Waits) :
    (callInitialized t).machine.Waits := by
  simp only [callInitialized]
  split
  · next hstate =>
    have hfree := hp.free (by simp [hstate]) (by simp [hstate]) (by simp [hstate])
    apply Free.waits_moveTo_idle
    · exact hfree.congr rfl rfl rfl rfl rfl
    · exact hp.single (by simp [hstate])
  · exact hp

private theorem waits_callEstablished (granted : Bool) (priority : Priority)
    (hp : t.machine.Waits) : (callEstablished granted priority t).machine.Waits := by
  have hq : Waits { t.machine with priority := priority } :=
    hp.congr rfl rfl rfl rfl rfl rfl rfl id
  simp only [callEstablished]
  split
  · next h =>
    simp only [Bool.and_eq_true, decide_eq_true_eq] at h
    have hidle : t.machine.state = .idle := h.2
    apply Free.waits_takeFloor
    exact hq.free (by simp [hidle]) (by simp [hidle]) (by simp [hidle])
  · exact hq

private theorem waits_pushToTalk (hp : t.machine.Waits) : (pushToTalk t).machine.Waits := by
  simp only [pushToTalk]
  split
  · exact hp
  split
  · next hstate =>
    have hfree := hp.free (by simp [hstate]) (by simp [hstate]) (by simp [hstate])
    have hsingle := hp.single (by simp [hstate])
    simp only [machine_moveTo, machine_startT101, Turn.machine_update, machine_send]
    constructor
    all_goals simp [hfree.t100, hfree.t132, hfree.pending, hfree.position, hsingle]
  · exact hp

private theorem waits_releaseToTalk (hp : t.machine.Waits) :
    (releaseToTalk t).machine.Waits := by
  simp only [releaseToTalk]
  split
  · next hstate =>
    exact (hp.free (by simp [hstate]) (by simp [hstate]) (by simp [hstate])).waits_startRelease
  · next hstate =>
    apply Free.waits_startRelease
    exact hp.free_of_pendingRequest hstate (Timer.running_stop _)
  · next hstate =>
    apply Free.waits_startRelease
    exact hp.free_leaveQueue hstate
  all_goals exact hp

private theorem waits_acceptGrant (hp : t.machine.Waits) : (acceptGrant t).machine.Waits := by
  simp only [acceptGrant]
  split
  · next h =>
    simp only [Bool.and_eq_true, decide_eq_true_eq] at h
    have hleft := hp.free_leaveQueue h.1
    apply Free.waits_takeFloor
    exact ⟨hleft.t101, hleft.t100, hleft.t132, rfl, rfl⟩
  · exact hp

private theorem waits_askQueuePosition (hp : t.machine.Waits) :
    (askQueuePosition t).machine.Waits := by
  simp only [askQueuePosition]
  split
  · exact hp.congr rfl rfl rfl rfl rfl rfl rfl id
  · exact hp

private theorem waits_receivePendingRequest (message : Message) (hp : t.machine.Waits)
    (hstate : t.machine.state = .pendingRequest) :
    (receivePendingRequest message t).machine.Waits := by
  have hsingle := hp.single (by simp [hstate])
  have hfree := hp.free_of_pendingRequest hstate (Timer.running_stop t.machine.t101)
  cases message with
  | granted ssrc priority duration dual ack =>
    apply Free.waits_takeFloor
    exact hfree.congr rfl rfl rfl rfl rfl
  | denied ssrc cause ack =>
    rw [receivePendingRequest, machine_tellDenied]
    exact Free.waits_moveTo_idle hfree hsingle
  | queuePositionInfo ssrc position priority =>
    have hreturning : t.machine.t100.running = false := hfree.t100
    have hdeciding : t.machine.t132.running = t.machine.grantPending :=
      hfree.t132.trans hfree.pending.symm
    simp only [receivePendingRequest, machine_moveTo, Turn.machine_update]
    constructor
    all_goals simp [hreturning, hdeciding, hsingle]
  | taken ssrc dual ack => exact hp.congr rfl rfl rfl rfl rfl rfl rfl id
  | _ => exact hp

private theorem waits_receiveQueued (message : Message) (hp : t.machine.Waits)
    (hstate : t.machine.state = .queued) : (receiveQueued message t).machine.Waits := by
  have hsingle := hp.single (by simp [hstate])
  have hfree := hp.free_leaveQueue hstate
  cases message with
  | granted ssrc priority duration dual ack =>
    simp only [receiveQueued]
    split
    · exact hp
    · simp only [Turn.machine_tell, machine_startT132, Turn.machine_update]
      constructor
      all_goals simp [hp.asking, hp.returning, hp.position, hstate, hsingle]
  | denied ssrc cause ack =>
    rw [receiveQueued, machine_tellDenied]
    exact Free.waits_moveTo_idle hfree hsingle
  | queuePositionInfo ssrc position priority =>
    have hsome : t.machine.position.isSome = true := hp.position.mpr hstate
    exact hp.congr rfl rfl rfl rfl rfl (by simp [receiveQueued, hsome]) rfl id
  | idle ack =>
    apply Free.waits_moveTo_idle
    · exact hfree.congr rfl rfl rfl rfl rfl
    · exact hsingle
  | revoke ssrc cause ack =>
    simp only [receiveQueued]
    split
    · exact Free.waits_startRelease hfree
    · exact hp
  | taken ssrc dual ack => exact hp.congr rfl rfl rfl rfl rfl rfl rfl id
  | _ => exact hp

private theorem waits_receiveHasPermission (message : Message) (hp : t.machine.Waits)
    (hstate : t.machine.state = .hasPermission) :
    (receiveHasPermission message t).machine.Waits := by
  have hfree := hp.free (by simp [hstate]) (by simp [hstate]) (by simp [hstate])
  cases message with
  | revoke ssrc cause ack => exact Free.waits_startRelease hfree
  | taken ssrc dual ack =>
    simp only [receiveHasPermission]
    split
    · exact hp.congr rfl rfl rfl rfl rfl rfl rfl (by simp)
    split
    · constructor
      all_goals simp [hfree.t101, hfree.t100, hfree.t132, hfree.pending, hfree.position, hstate]
    · exact hfree.waits_loseFloor _
  | idle ack => exact hfree.waits_loseFloor _
  | _ => exact hp

private theorem waits_receivePendingRelease (message : Message) (hp : t.machine.Waits)
    (hstate : t.machine.state = .pendingRelease) :
    (receivePendingRelease message t).machine.Waits := by
  have hsingle := hp.single (by simp [hstate])
  have hfree := hp.free_of_pendingRelease hstate (Timer.running_stop t.machine.t100)
  cases message with
  | idle ack =>
    apply Free.waits_moveTo_idle
    · exact hfree.congr rfl rfl rfl rfl rfl
    · exact hsingle
  | taken ssrc dual ack =>
    apply Free.waits_moveTo_idle
    · exact hfree.congr rfl rfl rfl rfl rfl
    · exact hsingle
  | denied ssrc cause ack => exact Free.waits_moveTo_idle hfree hsingle
  | _ => exact hp

private theorem waits_receiveIdle (message : Message) (hp : t.machine.Waits)
    (hstate : t.machine.state = .idle) : (receiveIdle message t).machine.Waits := by
  have hfree := hp.free (by simp [hstate]) (by simp [hstate]) (by simp [hstate])
  cases message with
  | granted ssrc priority duration dual ack =>
    simp only [receiveIdle]
    split
    · exact hfree.waits_startRelease
    · exact hp
  | taken ssrc dual ack => exact hp.congr rfl rfl rfl rfl rfl rfl rfl id
  | idle ack => exact hp.congr rfl rfl rfl rfl rfl rfl rfl id
  | _ => exact hp

theorem waits_receive (message : Message) (hp : t.machine.Waits) :
    (receive message t).machine.Waits := by
  -- The acknowledgement that goes before leaves the party as it is.
  have heq : (acknowledge message t).machine = t.machine := machine_acknowledge message
  have hack : (acknowledge message t).machine.Waits := by rwa [heq]
  simp only [receive]
  split
  · exact hp
  · next hstate => exact waits_receivePendingRequest message hack (by rwa [heq])
  · next hstate => exact waits_receiveQueued message hack (by rwa [heq])
  · next hstate => exact waits_receiveHasPermission message hack (by rwa [heq])
  · next hstate => exact waits_receivePendingRelease message hack (by rwa [heq])
  · next hstate => exact waits_receiveIdle message hack (by rwa [heq])

section Expire

variable {ticket : Ticket} (hp : p.Waits)

include hp

private theorem waits_expireT101 (haccepts : p.t101.accepts ticket = true) :
    (expireT101 (⟨{ p with t101 := p.t101.rest }, {}⟩ : Turn Participant)).machine.Waits := by
  have hstate : p.state = .pendingRequest :=
    hp.asking.mp ((p.t101.accepts_iff ticket).mp haccepts).1
  simp only [expireT101, hstate, if_true]
  split
  · rw [machine_tellFailure]
    apply Free.waits_moveTo_idle
    · have hfree := hp.free_of_pendingRequest hstate (Timer.running_rest p.t101)
      exact hfree.congr rfl rfl rfl rfl rfl
    · exact hp.single (by simp [hstate])
  · have hrunning : true = p.t101.running := (hp.asking.mpr hstate).symm
    exact hp.congr hstate.symm hrunning rfl rfl rfl rfl rfl id

private theorem waits_expireT100 (haccepts : p.t100.accepts ticket = true) :
    (expireT100 (⟨{ p with t100 := p.t100.rest }, {}⟩ : Turn Participant)).machine.Waits := by
  have hstate : p.state = .pendingRelease :=
    hp.returning.mp ((p.t100.accepts_iff ticket).mp haccepts).1
  simp only [expireT100, hstate, if_true]
  split
  · rw [machine_tellFailure]
    apply Free.waits_moveTo_idle
    · have hfree := hp.free_of_pendingRelease hstate (Timer.running_rest p.t100)
      exact hfree.congr rfl rfl rfl rfl rfl
    · exact hp.single (by simp [hstate])
  · have hrunning : true = p.t100.running := (hp.returning.mpr hstate).symm
    exact hp.congr hstate.symm rfl hrunning rfl rfl rfl rfl id

private theorem waits_expireT104 :
    (expireT104 (⟨{ p with t104 := p.t104.rest }, {}⟩ : Turn Participant)).machine.Waits := by
  simp only [expireT104]
  split
  · next hstate =>
    split
    · rw [machine_tellFailure]
      apply Free.waits_moveTo_idle
      · have hfree := hp.free_leaveQueue hstate
        exact hfree.congr rfl rfl rfl rfl rfl
      · exact hp.single (by simp [hstate])
    · exact hp.congr rfl rfl rfl rfl rfl rfl rfl id
  · exact hp.congr rfl rfl rfl rfl rfl rfl rfl id

private theorem waits_expireT132 (haccepts : p.t132.accepts ticket = true) :
    (expireT132 (⟨{ p with t132 := p.t132.rest }, {}⟩ : Turn Participant)).machine.Waits := by
  have hgrant : p.grantPending = true :=
    hp.deciding.mp ((p.t132.accepts_iff ticket).mp haccepts).1
  have hfree := hp.free_leaveQueue (hp.pending hgrant)
  simp only [expireT132, hgrant, if_true]
  apply Free.waits_startRelease
  exact ⟨hfree.t101, hfree.t100, Timer.running_rest _, rfl, rfl⟩

end Expire

theorem waits_expire (ticket : Ticket) (hp : p.Waits) :
    (expire ticket (⟨p, {}⟩ : Turn Participant)).machine.Waits := by
  simp only [expire]
  split
  · split
    · next haccepts => exact waits_expireT101 hp haccepts
    · exact hp
  · split
    · next haccepts => exact waits_expireT100 hp haccepts
    · exact hp
  · split
    · exact waits_expireT104 hp
    · exact hp
  · split
    · next haccepts => exact waits_expireT132 hp haccepts
    · exact hp
  all_goals exact hp

theorem waits_beginRelease : (beginRelease t).machine.Waits := by
  simp only [beginRelease, machine_moveTo, Turn.machine_update, stopTimers]
  constructor
  all_goals simp

/-- Only stopping the timers by themselves leaves a wait without its timer. -/
theorem waits_handle (input : Input) (hongoing : input ≠ .stopTimers) (hp : p.Waits) :
    (p.handle input).machine.Waits := by
  cases input with
  | initialized => exact waits_callInitialized hp
  | established granted priority => exact waits_callEstablished granted priority hp
  | push => exact waits_pushToTalk hp
  | release => exact waits_releaseToTalk hp
  | accept => exact waits_acceptGrant hp
  | askPosition => exact waits_askQueuePosition hp
  | setDual | setIndicator | finishRelease => exact hp.congr rfl rfl rfl rfl rfl rfl rfl id
  | receive message => exact waits_receive message hp
  | expire ticket => exact waits_expire ticket hp
  | beginRelease => exact waits_beginRelease
  | stopTimers => exact absurd rfl hongoing

theorem waits_create (callId : CallId) (ssrc : Ssrc) (callType : CallType) (priority : Priority)
    (originator : Bool) (config : ParticipantConfig) :
    (create callId ssrc callType priority originator config).Waits := by
  constructor
  all_goals simp [create]

def run (inputs : List Input) (p : Participant) : Participant :=
  inputs.foldl (fun p input => (p.handle input).machine) p

theorem waits_run_of_waits (inputs : List Input) (hongoing : .stopTimers ∉ inputs)
    (hp : p.Waits) : (p.run inputs).Waits := by
  induction inputs generalizing p with
  | nil => exact hp
  | cons input inputs ih =>
    simp only [List.mem_cons, not_or] at hongoing
    exact ih hongoing.2 (waits_handle input (Ne.symm hongoing.1) hp)

/-- However a participant is configured, and whatever the call, the user, the messages and the
timers do to it, every wait has its timer and no timer runs without its wait. -/
theorem waits_run (callId : CallId) (ssrc : Ssrc) (callType : CallType) (priority : Priority)
    (originator : Bool) (config : ParticipantConfig) (inputs : List Input)
    (hongoing : .stopTimers ∉ inputs) :
    ((create callId ssrc callType priority originator config).run inputs).Waits :=
  waits_run_of_waits inputs hongoing (waits_create ..)

theorem waits_run_offered : ((create 1 7 .basic 5 true {}).run
    [.initialized, .push, .receive (.queuePositionInfo 7 1 5),
      .receive (.granted 7 5 0 false true)]).Waits :=
  waits_run 1 7 .basic 5 true {} _ (by decide)

end FloorControl.Participant
