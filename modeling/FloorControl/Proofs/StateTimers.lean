import FloorControl.Proofs.LiveTickets
import FloorControl.Proofs.Tenure

/-!
# The timers of a state

Which timers of the arbitrator run is a matter of its state: T2 runs while the floor is taken, T1
and T3 while its holder is told to give way, T4 while somebody waits, T7 while the floor is idle,
and T20 while a second talker has not acknowledged its grant. Within a step this is not so: a timer
is started before the state is entered that it belongs to, and rests when its ticket was accepted
until it is known what comes of it. What holds all the time is that no timer runs that the state has
no use for; whoever gives the floor to somebody, or lets it be idle, starts from that.
-/

namespace FloorControl.Arbitrator

/-- Which timers run, with all that decides about it. -/
structure Gears where
  state : ArbitratorState
  waiting : Bool
  second : Bool
  ackRequired : Bool
  /-- Whether the second place asks for acknowledgements. -/
  secondAckRequired : Bool
  t1 : Bool
  t2 : Bool
  t3 : Bool
  t4 : Bool
  t7 : Bool
  t20 : Bool

def gears (a : Arbitrator) : Gears where
  state := a.state
  waiting := !a.queue.isEmpty
  second := a.dual.started
  ackRequired := a.config.ackRequired
  secondAckRequired := a.dual.ackRequired
  t1 := a.t1.running
  t2 := a.t2.running
  t3 := a.t3.running
  t4 := a.t4.running
  t7 := a.t7.running
  t20 := a.dual.t20.running

namespace Gears

/-- No timer runs that the state has no use for, except perhaps T4. -/
structure Confined (g : Gears) : Prop where
  t1 : g.t1 = true → g.state = .pendingRevoke
  t2 : g.t2 = true → g.state = .taken
  t3 : g.t3 = true → g.state = .pendingRevoke
  t7 : g.t7 = true → g.state = .idle
  t20 : g.t20 = true → g.second = true ∧ g.ackRequired = true
  ack : g.secondAckRequired = g.ackRequired

/-- The timers run that the state wants, except perhaps T4, and no others. -/
structure Paced (g : Gears) : Prop extends Confined g where
  taken : g.state = .taken → g.t2 = true
  revoked : g.state = .pendingRevoke → g.t1 = true ∧ g.t3 = true

/-- All timers run that the state wants, and no others. -/
structure InStep (g : Gears) : Prop extends Paced g where
  t4 : g.t4 = true ↔ g.state.occupied = true ∧ g.waiting = true

structure Still (g : Gears) : Prop where
  t1 : g.t1 = false
  t2 : g.t2 = false
  t3 : g.t3 = false
  t4 : g.t4 = false
  t7 : g.t7 = false

variable {g : Gears}

/-- While the floor is neither idle nor occupied, nothing is timed. -/
theorem InStep.still (h : g.InStep) (hidle : g.state ≠ .idle)
    (hvacant : g.state.occupied = false) : g.Still where
  t1 := Bool.eq_false_iff.mpr fun hruns => by simp [h.t1 hruns, ArbitratorState.occupied] at hvacant
  t2 := Bool.eq_false_iff.mpr fun hruns => by simp [h.t2 hruns, ArbitratorState.occupied] at hvacant
  t3 := Bool.eq_false_iff.mpr fun hruns => by simp [h.t3 hruns, ArbitratorState.occupied] at hvacant
  t4 := Bool.eq_false_iff.mpr fun hruns => by simp [(h.t4.mp hruns).1] at hvacant
  t7 := Bool.eq_false_iff.mpr fun hruns => hidle (h.t7 hruns)

/-- T4 and the queue are looked at apart. -/
theorem Confined.regardless (h : g.Confined) (waiting t4 : Bool) :
    Confined { g with waiting := waiting, t4 := t4 } :=
  ⟨h.t1, h.t2, h.t3, h.t7, h.t20, h.ack⟩

theorem Paced.regardless (h : g.Paced) (waiting t4 : Bool) :
    Paced { g with waiting := waiting, t4 := t4 } :=
  ⟨h.toConfined.regardless waiting t4, h.taken, h.revoked⟩

end Gears

open Gears

variable {t u : Turn Arbitrator}

theorem inStep_create (callId : CallId) (callType : CallType) (config : ArbitratorConfig) :
    (create callId callType config).gears.InStep := by
  refine ⟨⟨⟨?_, ?_, ?_, ?_, ?_, rfl⟩, ?_, ?_⟩, ?_⟩ <;>
    simp [gears, create, DualFloor.create, ArbitratorState.occupied]

theorem state_moveTo (next : ArbitratorState) : (moveTo next t).machine.state = next :=
  congrArg Places.state (places_moveTo next)

/-- Whoever starts T2 and enters the state in which the floor is taken has all timers right. -/
theorem paced_moveTo_taken (h : t.machine.gears.Confined) :
    (moveTo .taken (startT2 t)).machine.gears.Paced := by
  obtain ⟨t1, t2, t3, t7, t20, ack⟩ := h
  simp only [gears] at t1 t2 t3 t7 t20 ack
  cases hstate : t.machine.state <;> rw [hstate] at t1 t2 t3 t7 <;>
    refine ⟨⟨?_, ?_, ?_, ?_, ?_, ?_⟩, ?_, ?_⟩ <;>
    simp_all [gears, moveTo, startT2, Turn.start, stopStateTimers, startStateTimers]

/-- Entering the state in which the floor is idle leaves no timer running but T7. -/
theorem inStep_moveTo_idle (h : t.machine.gears.Confined) (hstate : t.machine.state ≠ .idle) :
    (moveTo .idle t).machine.gears.InStep := by
  obtain ⟨t1, t2, t3, t7, t20, ack⟩ := h
  simp only [gears] at t1 t2 t3 t7 t20 ack
  cases hbefore : t.machine.state <;> rw [hbefore] at t1 t2 t3 t7 hstate <;>
    refine ⟨⟨⟨?_, ?_, ?_, ?_, ?_, ?_⟩, ?_, ?_⟩, ?_⟩ <;>
    simp_all [gears, moveTo, startT7, Turn.start, stopStateTimers, startStateTimers,
      ArbitratorState.occupied]

/-- Entering the state in which the holder is told to give way starts T1 and T3. -/
theorem inStep_moveTo_pendingRevoke (h : t.machine.gears.Confined)
    (hstate : t.machine.state = .taken)
    (ht4 : t.machine.gears.t4 = true ↔ t.machine.gears.waiting = true) :
    (moveTo .pendingRevoke t).machine.gears.InStep := by
  obtain ⟨t1, t2, t3, t7, t20, ack⟩ := h
  simp only [gears, hstate] at t1 t2 t3 t7 t20 ack ht4
  refine ⟨⟨⟨?_, ?_, ?_, ?_, ?_, ?_⟩, ?_, ?_⟩, ?_⟩ <;>
    simp_all [gears, moveTo, startT1, startT3, Turn.start, stopStateTimers, startStateTimers,
      ArbitratorState.occupied]

/-- Entering any other state leaves no timer running. -/
private theorem inStep_moveTo_of_still {next : ArbitratorState} (h : t.machine.gears.Confined)
    (hstill : t.machine.gears.Still) (hidle : next ≠ .idle) (hvacant : next.occupied = false) :
    (moveTo next t).machine.gears.InStep := by
  obtain ⟨-, -, -, -, t20, ack⟩ := h
  obtain ⟨t1, t2, t3, t4, t7⟩ := hstill
  simp only [gears] at t1 t2 t3 t4 t7 t20 ack
  cases next with
  | idle => exact absurd rfl hidle
  | taken | pendingRevoke => cases hvacant
  | startStop | initialising | releasing =>
    cases hstate : t.machine.state <;> refine ⟨⟨⟨?_, ?_, ?_, ?_, ?_, ?_⟩, ?_, ?_⟩, ?_⟩ <;>
      simp_all [gears, moveTo, stopStateTimers, startStateTimers, ArbitratorState.occupied]

theorem inStep_refreshT4 (h : t.machine.gears.Paced) : (refreshT4 t).machine.gears.InStep := by
  simp only [refreshT4]
  split
  · next hwanted =>
    rw [Bool.and_eq_true] at hwanted
    split
    · next hruns => exact ⟨h, iff_of_true hruns hwanted⟩
    · exact ⟨h.regardless _ _, iff_of_true rfl hwanted⟩
  · next hunwanted =>
    rw [Bool.and_eq_true] at hunwanted
    exact ⟨h.regardless _ _, iff_of_false (by simp [gears]) hunwanted⟩

theorem inStep_grant (who : Talker) (h : t.machine.gears.Confined) :
    (grant who t).machine.gears.InStep := by
  simp only [grant]
  refine inStep_refreshT4 (paced_moveTo_taken ?_)
  rw [machine_broadcastExcept, machine_sendTo]
  exact h.regardless _ _

theorem inStep_grantImplicit (ssrc : Ssrc) (h : t.machine.gears.InStep) :
    (grantImplicit ssrc t).machine.gears.InStep := by
  rcases grantImplicit_cases ssrc t with ⟨-, heq⟩ | ⟨who, -, -, heq⟩ <;> rw [heq]
  · exact h
  · exact inStep_grant who h.toConfined

theorem inStep_becomeIdle (h : t.machine.gears.Confined) (hstate : t.machine.state ≠ .idle) :
    (becomeIdle t).machine.gears.InStep := by
  have hidle := inStep_moveTo_idle h hstate
  simp only [becomeIdle, if_neg hstate]
  split
  · exact hidle
  · exact inStep_grantImplicit (t := Turn.update _ _) _ hidle

theorem inStep_revokeHolder {who : Talker} (cause : RevokeCause) (h : t.machine.gears.Confined)
    (hstate : t.machine.state = .taken) (hholder : t.machine.holder = some who)
    (ht4 : t.machine.gears.t4 = true ↔ t.machine.gears.waiting = true) :
    (revokeHolder cause t).machine.gears.InStep := by
  simp only [revokeHolder, hholder]
  refine inStep_moveTo_pendingRevoke ?_ ?_ ?_ <;> rw [machine_sendTo]
  exacts [h, hstate, ht4]

private theorem t4_iff_waiting (h : t.machine.gears.InStep) (hstate : t.machine.state = .taken) :
    t.machine.gears.t4 = true ↔ t.machine.gears.waiting = true := by
  refine h.t4.trans (and_iff_right ?_)
  simp only [gears, hstate, ArbitratorState.occupied]

theorem inStep_queueOrDeny (who : Talker) (willing : Bool) (h : t.machine.gears.InStep) :
    (queueOrDeny who willing t).machine.gears.InStep := by
  simp only [queueOrDeny]
  split
  · split
    · refine inStep_refreshT4 ?_
      rw [machine_sendPosition]
      exact h.toPaced.regardless _ _
    · rwa [machine_deny]
  · rwa [machine_deny]

/-- The state in which a holder has just taken its place. -/
private theorem inStep_promoted (former : Option Talker) (second : Talker)
    (h : t.machine.gears.Confined) : (promoted former second t).machine.gears.InStep := by
  refine inStep_refreshT4 (paced_moveTo_taken ?_)
  rw [machine_broadcastExcept, Turn.machine_update, machine_dismiss]
  exact h

theorem inStep_promote (former : Option Talker) (second : Talker) (h : t.machine.gears.Confined) :
    (promote former second t).machine.gears.InStep := by
  have hpromoted := inStep_promoted former second h
  have hplaces : (promoted former second t).machine.places =
      { t.machine.places with holder := some second, state := .taken } := by
    rw [promoted, places_refreshT4, places_moveTo, places_startT2, machine_broadcastExcept,
      Turn.machine_update, machine_dismiss]
    rfl
  have hstate : (promoted former second t).machine.state = .taken := congrArg Places.state hplaces
  rw [promote_eq_promoted]
  split
  · exact hpromoted
  · split
    · exact inStep_revokeHolder _ hpromoted.toConfined hstate (congrArg Places.holder hplaces)
        (t4_iff_waiting hpromoted hstate)
    · exact inStep_queueOrDeny (t := Turn.update _ _) _ _ hpromoted

private theorem confined_vacated (h : t.machine.gears.Confined) :
    (vacated t).machine.gears.Confined where
  t1 := h.t1
  t2 := h.t2
  t3 := h.t3
  t7 := h.t7
  t20 := by simp [gears, vacated, DualFloor.vacate]
  ack := h.ack

/-- Whoever comes after the holder, the timers are right again. -/
theorem inStep_endHolder (h : t.machine.gears.Confined) (hstate : t.machine.state ≠ .idle) :
    (endHolder t).machine.gears.InStep := by
  have hvacated := confined_vacated h
  cases hsecond : t.machine.places.second with
  | some second =>
    rw [endHolder_of_second hsecond]
    exact inStep_promote _ _ hvacated
  | none =>
    cases hpreemptor : t.machine.places.preemptor with
    | some who =>
      rw [endHolder_of_preemptor hsecond hpreemptor]
      refine inStep_grant who ?_
      rw [machine_dismiss]
      exact hvacated
    | none =>
      cases hqueue : t.machine.places.queue.entries with
      | cons entry rest =>
        rw [endHolder_of_queue hsecond hpreemptor hqueue]
        refine inStep_grant entry.talker ?_
        rw [machine_dismiss]
        exact hvacated.regardless _ _
      | nil =>
        rw [endHolder_of_nobody hsecond hpreemptor hqueue]
        exact inStep_becomeIdle hvacated hstate

theorem inStep_checkReady (h : t.machine.gears.InStep) (hstate : t.machine.state ≠ .idle) :
    (checkReady t).machine.gears.InStep := by
  simp only [checkReady]
  split
  · exact inStep_becomeIdle h.toConfined hstate
  · exact h

theorem inStep_addParticipant {a b : Arbitrator} {ssrc : Ssrc} {priority : Priority}
    {originator : Bool} (h : a.gears.InStep)
    (hadded : a.addParticipant ssrc priority originator = .ok b) : b.gears.InStep := by
  obtain ⟨-, proxy, rfl⟩ := exists_insert_of_addParticipant hadded
  exact h

private theorem inStep_callInitialized {ssrc : Ssrc} (h : t.machine.gears.InStep)
    (hu : callInitialized ssrc t = .ok u) : u.machine.gears.InStep := by
  simp only [callInitialized] at hu
  split at hu
  · cases hu
  · cases hu
    split
    · next hstate =>
      have hstate : t.machine.gears.state = .startStop := hstate
      have hstill := h.still (hstate ▸ by decide) (hstate ▸ rfl)
      refine inStep_checkReady (inStep_moveTo_of_still (t := Turn.update _ _) h.toConfined hstill
        (by decide) rfl) ?_
      simp [state_moveTo]
    · next hstate => exact inStep_checkReady (t := Turn.update _ _) h (hstate ▸ by decide)
    · rwa [machine_sendTo]
    · split
      · rwa [machine_sendTo]
      · exact h
    · split
      · rwa [machine_sendTo]
      · exact h
    · exact h

private theorem inStep_implicitFloorRequest {ssrc : Ssrc} (h : t.machine.gears.InStep)
    (hu : implicitFloorRequest ssrc t = .ok u) : u.machine.gears.InStep := by
  simp only [implicitFloorRequest] at hu
  split at hu
  · cases hu
  · cases hu
    split
    · exact inStep_grantImplicit _ h
    all_goals exact h

private theorem paced_forgotten (ssrc : Ssrc) (h : t.machine.gears.Paced) :
    (forgotten ssrc t).machine.gears.Paced where
  t1 := h.t1
  t2 := h.t2
  t3 := h.t3
  t7 := h.t7
  t20 := by
    have ht20 := h.t20
    simp only [forgotten, forget, gears, Turn.machine_update] at ht20 ⊢
    split
    · simp [DualFloor.vacate]
    · exact ht20
  ack := by
    have hack := h.ack
    simp only [forgotten, forget, gears, Turn.machine_update] at hack ⊢
    split <;> exact hack
  taken := h.taken
  revoked := h.revoked

private theorem inStep_relieved (ssrc : Ssrc) (h : t.machine.gears.Paced) :
    (relieved ssrc t).machine.gears.InStep := by
  simp only [relieved]
  split
  · next hholds =>
    rw [Bool.and_eq_true] at hholds
    refine inStep_endHolder h.toConfined fun hidle => ?_
    simp [occupied, hidle, ArbitratorState.occupied] at hholds
  · exact inStep_refreshT4 h

private theorem inStep_clientRelease {ssrc : Ssrc} (h : t.machine.gears.InStep)
    (hu : clientRelease ssrc t = .ok u) : u.machine.gears.InStep := by
  rw [eq_of_clientRelease hu]
  have hrelieved := inStep_relieved ssrc (paced_forgotten ssrc h.toPaced)
  split
  · next hstate => exact inStep_checkReady hrelieved (by simp [hstate])
  · exact hrelieved

private theorem inStep_vacate (h : t.machine.gears.InStep) :
    (t.update fun a => { a with dual := a.dual.vacate }).machine.gears.InStep where
  t1 := h.t1
  t2 := h.t2
  t3 := h.t3
  t4 := h.t4
  t7 := h.t7
  t20 := by simp [gears, DualFloor.vacate]
  ack := h.ack
  taken := h.taken
  revoked := h.revoked

private theorem inStep_onDual_grant (who : Talker) (others : List Ssrc)
    (h : t.machine.gears.InStep) :
    (onDual (DualFloor.grant who others) t).machine.gears.InStep where
  t1 := h.t1
  t2 := h.t2
  t3 := h.t3
  t4 := h.t4
  t7 := h.t7
  t20 := by
    have ht20 := h.t20
    have hack := h.ack
    simp only [gears] at ht20 hack
    cases hasks : t.machine.dual.ackRequired with
    | true => simp [gears, onDual, DualFloor.grant, DualFloor.started, ← hack, hasks]
    | false =>
      intro hruns
      simp only [gears, onDual, DualFloor.grant, Turn.machine_update, Turn.machine_post, hasks,
        Bool.false_eq_true, if_false] at hruns
      rw [← hack, hasks] at ht20
      exact absurd (ht20 hruns).2 Bool.false_ne_true
  ack := by
    have hack := h.ack
    simp only [gears, onDual, DualFloor.grant] at hack ⊢
    split <;> exact hack
  taken := h.taken
  revoked := h.revoked

private theorem inStep_resendGrant (h : t.machine.gears.InStep) :
    (onDual DualFloor.resendGrant t).machine.gears.InStep := by
  simp only [onDual, DualFloor.resendGrant]
  split <;> exact h

private theorem inStep_requestWhileOccupied (r : Request) (receiveOnly : Bool)
    (h : t.machine.gears.InStep) :
    (requestWhileOccupied r receiveOnly t).machine.gears.InStep := by
  have hreaction := reaction_requestWhileOccupied r receiveOnly t
  generalize requestWhileOccupied r receiveOnly t = u at hreaction ⊢
  cases hreaction with
  | holder | waiting | preemptor | listens =>
    simpa only [machine_sendTo, machine_sendPosition, machine_sendPreemptorPosition, machine_deny]
      using h
  | second => exact inStep_resendGrant h
  | seconded => exact inStep_onDual_grant _ _ h
  | preempted _ _ hholder _ _ hstate =>
    exact inStep_revokeHolder (t := Turn.update _ _) _ h.toConfined hstate hholder
      (t4_iff_waiting h hstate)
  | @supplanted _ former _ _ hholder _ hstate =>
    have hkept := tenure_queueOrDeny (t := t) former true
    have hwaits := inStep_queueOrDeny former true h
    have htaken := (congrArg Tenure.state hkept).trans hstate
    exact inStep_revokeHolder (t := Turn.update _ _) _ hwaits.toConfined htaken
      ((congrArg Tenure.holder hkept).trans hholder) (t4_iff_waiting hwaits htaken)
  | parked => exact h
  | displaced => exact inStep_queueOrDeny (t := Turn.update _ _) _ _ h
  | enlisted => exact inStep_queueOrDeny _ _ h

private theorem inStep_receiveAck (ssrc : Ssrc) (acked : MessageKind) {a : Arbitrator}
    (h : a.gears.InStep) : (receiveAck ssrc acked a).gears.InStep := by
  simp only [receiveAck, DualFloor.acknowledge]
  split
  · split
    · exact { h with t20 := by simp [gears] }
    · exact h
  · exact h

private theorem inStep_receiveRelease (ssrc : Ssrc) (h : t.machine.gears.InStep) :
    (receiveRelease ssrc t).machine.gears.InStep := by
  simp only [receiveRelease]
  split
  · split
    · rwa [machine_sendTo]
    · exact h
  · next hoccupied =>
    split
    · refine inStep_endHolder h.toConfined fun hidle => hoccupied ?_
      simp [occupied, hidle, ArbitratorState.occupied]
    split
    · have hvacant := inStep_vacate h
      split <;> exact hvacant
    · refine inStep_refreshT4 ?_
      simp only [sendTaken]
      split
      · rw [machine_sendTo]
        exact h.toPaced.regardless _ _
      · exact h.toPaced.regardless _ _

theorem inStep_receive (message : Message) (h : t.machine.gears.InStep) :
    (receive message t).machine.gears.InStep := by
  cases message with
  | request wish =>
    simp only [receive, receiveRequest]
    split
    · exact h
    · split
      · split
        · rwa [machine_deny]
        · exact inStep_grant _ h.toConfined
      · exact inStep_requestWhileOccupied _ _ h
      · exact inStep_requestWhileOccupied _ _ h
      all_goals exact h
  | release ssrc => exact inStep_receiveRelease ssrc h
  | queuePositionRequest ssrc =>
    simp only [receive, receiveQueuePositionRequest]
    split
    · rwa [machine_sendPosition]
    · split
      · rwa [machine_sendPreemptorPosition]
      · exact h
  | ack ssrc acked => exact inStep_receiveAck ssrc acked h
  | granted | denied | idle | taken | revoke | queuePositionInfo => exact h

private theorem inStep_expireT1 (h : t.machine.gears.InStep) (hsound : t.machine.places.Sound)
    (hruns : t.machine.t1.running = true) :
    (expireT1 (t.update fun a => { a with t1 := a.t1.rest })).machine.gears.InStep := by
  have hstate : t.machine.state = .pendingRevoke := h.t1 hruns
  obtain ⟨holder, hholder, -⟩ := exists_ending hsound (by rw [occupied, hstate]; rfl)
  have hstarted : ∀ u : Turn Arbitrator,
      (startT1 u).machine.gears = { u.machine.gears with t1 := true } := fun _ => rfl
  simp only [expireT1, Turn.machine_update, hstate, hholder]
  rw [hstarted, machine_sendTo]
  exact { h with
    t1 := fun _ => hstate
    revoked := fun _ => ⟨rfl, (h.revoked hstate).2⟩ }

private theorem inStep_expireT2 (h : t.machine.gears.InStep) (hsound : t.machine.places.Sound)
    (hruns : t.machine.t2.running = true) :
    (expireT2 (t.update fun a => { a with t2 := a.t2.rest })).machine.gears.InStep := by
  have hstate : t.machine.state = .taken := h.t2 hruns
  obtain ⟨holder, hholder, -⟩ := exists_ending hsound (by rw [occupied, hstate]; rfl)
  simp only [expireT2, Turn.machine_update, hstate, if_true]
  exact inStep_revokeHolder (t := Turn.update _ _) _
    { h.toConfined with t2 := by simp [gears] } hstate hholder (t4_iff_waiting (t := t) h hstate)

private theorem inStep_expireT3 (h : t.machine.gears.InStep)
    (hruns : t.machine.t3.running = true) :
    (expireT3 (t.update fun a => { a with t3 := a.t3.rest })).machine.gears.InStep := by
  have hstate : t.machine.state = .pendingRevoke := h.t3 hruns
  simp only [expireT3, Turn.machine_update, hstate, if_true]
  exact inStep_endHolder (t := Turn.update _ _) { h.toConfined with t3 := by simp [gears] }
    (hstate ▸ by decide)

private theorem inStep_expireT4 (h : t.machine.gears.InStep) :
    (expireT4 (t.update fun a => { a with t4 := a.t4.rest })).machine.gears.InStep := by
  refine inStep_refreshT4 ?_
  rw [machine_sendPositions]
  exact h.toPaced.regardless _ _

private theorem inStep_expireT7 (h : t.machine.gears.InStep)
    (hruns : t.machine.t7.running = true) :
    (expireT7 (t.update fun a => { a with t7 := a.t7.rest })).machine.gears.InStep := by
  have hstate : t.machine.state = .idle := h.t7 hruns
  simp only [expireT7, Turn.machine_update, hstate, if_true]
  split
  · exact { h with t7 := by simp [gears] }
  · exact { h with t7 := fun _ => hstate }

private theorem inStep_expireT20 (ticket : Ticket) (h : t.machine.gears.InStep) :
    (expireT20 ticket t).machine.gears.InStep := by
  cases haccepts : t.machine.dual.t20.accepts ticket with
  | false =>
    rw [expireT20_of_refused haccepts]
    exact h
  | true =>
    have hruns := ((Timer.accepts_iff _ _).mp haccepts).1
    cases hsecond : t.machine.dual.talker with
    | none =>
      simp only [expireT20, DualFloor.expire, haccepts, Bool.not_true, Bool.false_eq_true, if_false,
        Turn.machine_update, hsecond]
      exact { h with t20 := by simp [gears] }
    | some who =>
      by_cases harrives : t.machine.dual.c20.arrives = true
      · simp only [expireT20, DualFloor.expire, haccepts, Bool.not_true, Bool.false_eq_true,
          if_false, Turn.machine_update, hsecond, harrives, if_true]
        rw [Turn.machine_tell, machine_sendTo]
        exact { h with t20 := by simp [gears] }
      · simp only [expireT20, DualFloor.expire, haccepts, Bool.not_true, Bool.false_eq_true,
          if_false, Turn.machine_update, hsecond, harrives, DualFloor.resendGrant]
        exact { h with t20 := fun _ => h.t20 hruns }

/-- Whatever ticket comes due, the timers are right afterwards. -/
theorem inStep_expire (ticket : Ticket) (h : t.machine.gears.InStep)
    (hsound : t.machine.places.Sound) : (expire ticket t).machine.gears.InStep := by
  have hruns : ∀ timer : Timer, timer.accepts ticket = true → timer.running = true :=
    fun timer haccepts => ((Timer.accepts_iff _ _).mp haccepts).1
  simp only [expire]
  split
  · split
    · next haccepts => exact inStep_expireT1 h hsound (hruns _ haccepts)
    · exact h
  · split
    · next haccepts => exact inStep_expireT2 h hsound (hruns _ haccepts)
    · exact h
  · split
    · next haccepts => exact inStep_expireT3 h (hruns _ haccepts)
    · exact h
  · split
    · exact inStep_expireT4 h
    · exact h
  · split
    · next haccepts => exact inStep_expireT7 h (hruns _ haccepts)
    · exact h
  · exact inStep_expireT20 ticket h
  all_goals exact h

private theorem inStep_beginRelease (h : t.machine.gears.InStep) :
    (beginRelease t).machine.gears.InStep := by
  obtain ⟨u, heq, hu⟩ := exists_moveTo_releasing t
  have hack : t.machine.dual.ackRequired = t.machine.config.ackRequired := h.ack
  have hconfined : u.machine.gears.Confined := by
    rw [hu]
    constructor <;> simp [gears, stopTimers, DualFloor.stop, DualFloor.vacate, hack]
  have hstill : u.machine.gears.Still := by
    rw [hu]
    constructor <;> simp [gears, stopTimers]
  rw [heq]
  exact inStep_moveTo_of_still hconfined hstill (by decide) rfl

private theorem inStep_finishRelease (h : t.machine.gears.InStep) :
    (finishRelease t).machine.gears.InStep := by
  simp only [finishRelease]
  split
  · next hstate =>
    have hstate : t.machine.gears.state = .releasing := hstate
    have hstill := h.still (hstate ▸ by decide) (hstate ▸ rfl)
    exact inStep_moveTo_of_still (t := Turn.update _ _) h.toConfined hstill (by decide) rfl
  · exact h

/-- Whatever the arbitrator does in a turn, its timers are right afterwards. -/
theorem Takes.inStep (htakes : Takes t u) (h : t.machine.gears.InStep) :
    u.machine.gears.InStep := by
  cases htakes with
  | initialized hu => exact inStep_callInitialized h hu
  | implicitRequest hu => exact inStep_implicitFloorRequest h hu
  | left hu => exact inStep_clientRelease h hu
  | received message => exact inStep_receive message h
  | begun => exact inStep_beginRelease h
  | finished => exact inStep_finishRelease h

end FloorControl.Arbitrator

namespace FloorControl.Session

open Arbitrator

variable {config : SessionConfig} {h : History} {s : Session} {m m' : Machines}
  {outs : List Outbox} {event : SessionEvent}

theorem inStep_part {op : Operation} (hpart : Part op m outs m')
    (h : m.arbitrator.gears.InStep) : m'.arbitrator.gears.InStep := by
  cases hpart with
  | arbitrator hmachine _ _ hadmits => exact hadmits.takes.inStep (hmachine ▸ h)
  | participant | quiet => exact h
  | left _ hleaves => exact (Takes.left hleaves).inStep h
  | closed => exact Takes.begun.inStep h

theorem inStep_parts {op : Operation} (hparts : Parts op m outs m')
    (h : m.arbitrator.gears.InStep) : m'.arbitrator.gears.InStep :=
  hparts.keeps (P := fun m => m.arbitrator.gears.InStep) (fun _ _ _ => inStep_part) h

theorem inStep_delivers (hdelivers : Delivers m event outs m') (h : m.arbitrator.gears.InStep)
    (hsound : m.arbitrator.places.Sound) : m'.arbitrator.gears.InStep := by
  cases hdelivers with
  | arbitratorTicket => exact inStep_expire _ (t := ⟨m.arbitrator, {}⟩) h hsound
  | arbitratorLetter message => exact inStep_receive message (t := ⟨m.arbitrator, {}⟩) h
  | participantTicket | participantLetter | dropped => exact h

/-- In every call the timers of the arbitrator are right. -/
theorem Stage.inStep (hs : Stage config h s) : s.arbitrator.gears.InStep := by
  induction hs with
  | created callId callType => exact inStep_create callId callType config.arbitrator
  | acted _ _ _ hparts ih => exact inStep_parts hparts ih
  | joined _ _ hadded ih => exact inStep_addParticipant ih hadded
  | delivered hs _ hdelivers ih => exact inStep_delivers hdelivers ih hs.sound
  | settled _ _ ih => exact ih
  | ended _ hdowned ih =>
    rw [hdowned.arbitrator]
    exact Takes.finished.inStep ih

/-- A timer of the arbitrator that runs waits for one ticket, which is due after its delay. -/
theorem Stage.exists_ticket (hs : Stage config h s) (hactive : s.active = true) (timer : Timer)
    (htimer : timer ∈ s.arbitrator.timers) (hruns : timer.running = true) :
    ∃ x start, s.scheduler.pending.filter (·.event = .expiry timer.ticket) = [x] ∧
      h.startedAt timer.ticket = some start ∧ start ≤ s.now ∧
      x.due = Time.after start timer.delay ∧ min s.now Time.last ≤ x.due ∧
      x.due ≤ Time.after s.now timer.delay := by
  have hwound := hs.wound (o := .arbitrator) hactive htimer
  obtain ⟨x, start, hfilter, hstart, hdue⟩ := hwound.live hruns
  have hstarted := hs.startedAt_le hstart
  have hmem : x ∈ s.scheduler.pending :=
    (List.mem_filter.mp (hfilter ▸ List.mem_singleton_self x)).1
  have hsingle : s.scheduler.pending.filter (·.event = .expiry timer.ticket) = [x] := by
    rw [← hfilter]
    refine List.filter_congr fun y hy => ?_
    have hpos := (hs.timely.numbered y hy).1
    simp [History.enteredAt_arbitrator, hpos]
  exact ⟨x, start, hsingle, hstart, hstarted, hdue, hs.timely.ahead x hmem,
    hdue ▸ Time.after_mono _ hstarted⟩

variable {phase : Phase} {r : Run}

/-- As long as a call is not down, the timers of its arbitrator run exactly in the states that they
belong to, and every timer that runs has one ticket in the scheduler, the one that it will accept,
which is due after its delay and not behind the clock. So nobody holds the floor when T2 is over,
and nobody that was told to give way holds it when T3 is over: neither is started again as long as
the same party has the floor in the same state, whatever happens to the arbitrator. -/
theorem timers_in_step (hr : Reached config phase h r) (hactive : r.state.active = true) :
    (r.state.arbitrator.t1.running = true ↔ r.state.arbitrator.state = .pendingRevoke) ∧
    (r.state.arbitrator.t2.running = true ↔ r.state.arbitrator.state = .taken) ∧
    (r.state.arbitrator.t3.running = true ↔ r.state.arbitrator.state = .pendingRevoke) ∧
    (r.state.arbitrator.t4.running = true ↔
      r.state.arbitrator.occupied = true ∧ r.state.arbitrator.queue.isEmpty = false) ∧
    (r.state.arbitrator.t7.running = true → r.state.arbitrator.state = .idle) ∧
    (r.state.arbitrator.dual.t20.running = true →
      r.state.arbitrator.dual.talker.isSome = true ∧
        r.state.arbitrator.config.ackRequired = true) ∧
    (∀ timer ∈ r.state.arbitrator.timers, timer.running = true →
      ∃ x start, r.state.scheduler.pending.filter (·.event = .expiry timer.ticket) = [x] ∧
        h.startedAt timer.ticket = some start ∧ start ≤ r.state.now ∧
        x.due = Time.after start timer.delay ∧ min r.state.now Time.last ≤ x.due ∧
        x.due ≤ Time.after r.state.now timer.delay) ∧
    (r.state.arbitrator.state = .taken → ∃ start,
      h.startedAt r.state.arbitrator.t2.ticket = some start ∧ start ≤ r.state.now ∧
        min r.state.now Time.last ≤ Time.after start config.arbitrator.t2.toNat) ∧
    (r.state.arbitrator.state = .pendingRevoke → ∃ start,
      h.startedAt r.state.arbitrator.t3.ticket = some start ∧ start ≤ r.state.now ∧
        min r.state.now Time.last ≤ Time.after start config.arbitrator.t3.toNat) ∧
    (r.state.arbitrator.occupied = true → ∀ input u,
      r.state.arbitrator.handle input = .ok u → u.machine.state = r.state.arbitrator.state →
      u.machine.holder.map (·.ssrc) = r.state.arbitrator.holder.map (·.ssrc) →
      (u.machine.t2.running = true → u.machine.t2.ticket = r.state.arbitrator.t2.ticket) ∧
        (u.machine.t3.running = true → u.machine.t3.ticket = r.state.arbitrator.t3.ticket)) := by
  have hs := hr.stage
  have hsteps := hs.inStep
  have hmake := hs.made.arbitrator
  simp only [machines, Arbitrator.timers, Arbitrator.makes, List.map_cons, List.cons.injEq,
    Timer.make, Prod.mk.injEq] at hmake
  obtain ⟨-, ⟨-, -, ht2⟩, ⟨-, -, ht3⟩, -⟩ := hmake
  refine ⟨⟨hsteps.t1, fun hstate => (hsteps.revoked hstate).1⟩, ⟨hsteps.t2, hsteps.taken⟩,
    ⟨hsteps.t3, fun hstate => (hsteps.revoked hstate).2⟩, ?_, hsteps.t7, hsteps.t20,
    hs.exists_ticket hactive, fun hstate => ?_, fun hstate => ?_,
    fun hoccupied _ _ hhandled => lasts_handle hs.sound hoccupied hhandled⟩
  · refine hsteps.t4.trans (and_congr_right fun _ => ?_)
    simp [gears]
  · obtain ⟨x, start, -, hstart, hstarted, hdue, hahead, -⟩ := hs.exists_ticket hactive
      r.state.arbitrator.t2 (by simp [timers]) (hsteps.taken hstate)
    exact ⟨start, hstart, hstarted, by rwa [hdue, ht2] at hahead⟩
  · obtain ⟨x, start, -, hstart, hstarted, hdue, hahead, -⟩ := hs.exists_ticket hactive
      r.state.arbitrator.t3 (by simp [timers]) (hsteps.revoked hstate).2
    exact ⟨start, hstart, hstarted, by rwa [hdue, ht3] at hahead⟩

def overlong : List Operation :=
  [.join 1 5 true, .join 2 5 false, .setUpAll, .advanceTo 10, .push 1, .advanceTo 30, .push 2,
    .advanceTo 30025]

/-- The talker was told to give way, and T3 has the ticket by which it loses the floor. -/
theorem timers_in_step_overlong :
    ∃ h r, play? overlong ⟨Session.create 1 .basic { linkDelay := 10 } 0, []⟩ = some r ∧
      Reached { linkDelay := 10 } .resting h r ∧ r.state.active = true ∧
      r.state.arbitrator.state = .pendingRevoke ∧ r.state.arbitrator.t3.running = true ∧
      ∃ x start,
        r.state.scheduler.pending.filter (·.event = .expiry r.state.arbitrator.t3.ticket) = [x] ∧
        h.startedAt r.state.arbitrator.t3.ticket = some start ∧
        x.due = Time.after start r.state.arbitrator.t3.delay := by
  have hplayed : ∃ r,
      play? overlong ⟨Session.create 1 .basic { linkDelay := 10 } 0, []⟩ = some r ∧
      (r.state.active && decide (r.state.arbitrator.state = .pendingRevoke)) = true :=
    (Option.any_eq_true _ _).mp (by decide +kernel)
  obtain ⟨r, hr, hcheck⟩ := hplayed
  rw [Bool.and_eq_true, decide_eq_true_eq] at hcheck
  obtain ⟨hactive, hstate⟩ := hcheck
  obtain ⟨h, hreached, -⟩ := (Reached.created 1 .basic 0).play? hr
  obtain ⟨-, -, ht3, -, -, -, htickets, -⟩ := timers_in_step hreached hactive
  have hruns := ht3.mpr hstate
  obtain ⟨x, start, hfilter, hstart, -, hdue, -⟩ := htickets _ (by simp [timers]) hruns
  exact ⟨h, r, hr, hreached, hactive, hstate, hruns, x, start, hfilter, hstart, hdue⟩

end FloorControl.Session
