import FloorControl.Proofs.Replay
import FloorControl.Proofs.StateTimers

/-!
# The path of the arbitrator

Every change of the arbitrator's state is told in the turn in which it happens, and goes along one
of the edges of `ArbitratorState.next`. What a turn does in between (letters, timers, places) is
told to nobody as a change. While the call is set up the changes stay among the three states in
which the floor goes from one party to the next; only parties that become ready or leave end the
set-up, and only the end of the call leaves those states.
-/

namespace FloorControl.Arbitrator

variable {next : ArbitratorState → List ArbitratorState} {t u v : Turn Arbitrator}

/-- From one moment of a turn to a later one the roster and the call type stay, and the changes of
state that are told in between lead along the given edges. -/
structure Passes (next : ArbitratorState → List ArbitratorState) (t u : Turn Arbitrator) :
    Prop where
  callType : u.machine.callType = t.machine.callType
  roster : u.machine.roster = t.machine.roster
  exists_told : ∃ told, notices u.out.events = notices t.out.events ++ told ∧
    (∀ e ∈ told, e.arbitratorChange?.isSome = true) ∧
    replay next t.machine.state (told.filterMap FloorEvent.arbitratorChange?) =
      some u.machine.state

namespace Passes

theorem refl (t : Turn Arbitrator) : Passes next t t := ⟨rfl, rfl, [], by simp, by simp, rfl⟩

theorem trans (h : Passes next t u) (h' : Passes next u v) : Passes next t v := by
  obtain ⟨first, hfirst, hchanges, hpath⟩ := h.exists_told
  obtain ⟨later, hlater, hchanges', hpath'⟩ := h'.exists_told
  refine ⟨h'.callType.trans h.callType, h'.roster.trans h.roster, first ++ later, ?_, ?_, ?_⟩
  · rw [hlater, hfirst, List.append_assoc]
  · intro e he
    exact (List.mem_append.mp he).elim (hchanges e) (hchanges' e)
  · rw [List.filterMap_append]
    exact replay_trans hpath hpath'

/-- Nothing is told where the state stays. -/
theorem quietly (h : Passes next t u) (hcall : v.machine.callType = u.machine.callType)
    (hroster : v.machine.roster = u.machine.roster) (hstate : v.machine.state = u.machine.state)
    (hevents : notices v.out.events = notices u.out.events) : Passes next t v := by
  obtain ⟨told, htold, hchanges, hpath⟩ := h.exists_told
  exact ⟨hcall.trans h.callType, hroster.trans h.roster, told, hevents.trans htold, hchanges,
    hpath.trans (congrArg some hstate.symm)⟩

theorem update (h : Passes next t u) (f : Arbitrator → Arbitrator)
    (hcall : (f u.machine).callType = u.machine.callType)
    (hroster : (f u.machine).roster = u.machine.roster)
    (hstate : (f u.machine).state = u.machine.state) : Passes next t (u.update f) :=
  h.quietly hcall hroster hstate rfl

theorem state_cases (h : Passes ArbitratorState.turnover t u) :
    u.machine.state = t.machine.state ∨
      t.machine.state.turnover ≠ [] ∧ u.machine.state.turnover ≠ [] := by
  obtain ⟨told, -, -, hpath⟩ := h.exists_told
  exact replay_turnover hpath

theorem sendTo (h : Passes next t u) (ssrc : Ssrc) (message : Message) :
    Passes next t (sendTo ssrc message u) := by
  simp only [Arbitrator.sendTo]
  split
  · exact h.quietly rfl rfl rfl rfl
  · exact h

theorem broadcastExcept (h : Passes next t u) (except : Option Ssrc) (message : Message) :
    Passes next t (broadcastExcept except message u) := h.quietly rfl rfl rfl rfl

theorem dismiss (h : Passes next t u) (former : Option Talker) :
    Passes next t (dismiss former u) := by
  cases former with
  | none => exact h
  | some who => exact h.sendTo _ _

theorem startT1 (h : Passes next t u) : Passes next t (startT1 u) := h.quietly rfl rfl rfl rfl

theorem startT2 (h : Passes next t u) : Passes next t (startT2 u) := h.quietly rfl rfl rfl rfl

theorem startT3 (h : Passes next t u) : Passes next t (startT3 u) := h.quietly rfl rfl rfl rfl

theorem startT7 (h : Passes next t u) : Passes next t (startT7 u) := h.quietly rfl rfl rfl rfl

theorem refreshT4 (h : Passes next t u) : Passes next t (refreshT4 u) := by
  simp only [Arbitrator.refreshT4]
  split
  · split
    · exact h
    · exact h.quietly rfl rfl rfl rfl
  · exact h.update _ rfl rfl rfl

/-- The change itself: it is told once, with the state that it comes from. -/
theorem moveTo {after : ArbitratorState} (h : Passes next t u)
    (hedge : u.machine.state = after ∨ after ∈ next u.machine.state) :
    Passes next t (moveTo after u) := by
  have hstarts (v : Turn Arbitrator) (hv : Passes next t v) :
      Passes next t (startStateTimers v) := by
    simp only [startStateTimers]
    split
    · apply startT7
      exact hv.update _ rfl rfl rfl
    · exact hv.startT1.startT3
    all_goals exact hv
  simp only [Arbitrator.moveTo]
  split
  · exact h
  · next hmoves =>
    have hafter := hedge.resolve_left hmoves
    apply hstarts
    refine h.trans ⟨?_, ?_, [.arbitratorMoved (stopStateTimers u.machine.state u.machine).callId
      (stopStateTimers u.machine.state u.machine).config.ssrc u.machine.state after], ?_, ?_, ?_⟩
    · cases u.machine.state <;> rfl
    · cases u.machine.state <;> rfl
    · simp [notices, FloorEvent.noteworthy]
    · simp [FloorEvent.arbitratorChange?]
    · simp [FloorEvent.arbitratorChange?, replay, hafter]

theorem queueOrDeny (h : Passes next t u) (who : Talker) (willing : Bool) :
    Passes next t (queueOrDeny who willing u) := by
  simp only [Arbitrator.queueOrDeny]
  split
  · split
    · exact ((h.update _ rfl rfl rfl).sendTo _ _).refreshT4
    · exact h.sendTo _ _
  · exact h.sendTo _ _

private theorem state_queueOrDeny (who : Talker) (willing : Bool) (u : Turn Arbitrator) :
    (Arbitrator.queueOrDeny who willing u).machine.state = u.machine.state := by
  rcases queueOrDeny_cases who willing u with
    ⟨_, _, _, _, hplaces, _⟩ | ⟨_, _, hplaces, _⟩ <;>
    exact congrArg Places.state hplaces

variable (hturns : ∀ s : ArbitratorState, s.turnover ⊆ next s)
include hturns

/-- Where the floor can go to a party, it is taken already or may be taken next. -/
private theorem moveToTaken (h : Passes next t u) (hset : u.machine.state.turnover ≠ []) :
    Passes next t (Arbitrator.moveTo .taken u) := by
  apply h.moveTo
  cases hstate : u.machine.state with
  | taken => exact .inl rfl
  | idle => exact .inr (hturns .idle (by decide))
  | pendingRevoke => exact .inr (hturns .pendingRevoke (by decide))
  | startStop | initialising | releasing => exact absurd (by rw [hstate]; rfl) hset

theorem grant (h : Passes next t u) (who : Talker) (hset : u.machine.state.turnover ≠ []) :
    Passes next t (grant who u) := by
  apply refreshT4
  apply moveToTaken hturns
  · apply startT2
    apply broadcastExcept
    apply sendTo
    exact h.update _ rfl rfl rfl
  · rw [Arbitrator.startT2, Turn.start, Turn.machine_arm, Turn.machine_update,
      machine_broadcastExcept, machine_sendTo]
    exact hset

theorem grantImplicit (h : Passes next t u) (ssrc : Ssrc) (hset : u.machine.state.turnover ≠ []) :
    Passes next t (grantImplicit ssrc u) := by
  rcases grantImplicit_cases ssrc u with ⟨-, heq⟩ | ⟨who, -, -, heq⟩ <;> rw [heq]
  · exact h
  · exact h.grant hturns who hset

theorem becomeIdle (h : Passes next t u)
    (hedge : u.machine.state = .idle ∨ .idle ∈ next u.machine.state) :
    Passes next t (becomeIdle u) := by
  have hidle := h.moveTo hedge
  simp only [Arbitrator.becomeIdle]
  split
  · exact h
  · split
    · exact hidle
    · apply grantImplicit hturns
      · exact hidle.update _ rfl rfl rfl
      · rw [Turn.machine_update, state_moveTo]
        decide

/-- Only a party that has the floor is told to give it back. -/
theorem revokeHolder (h : Passes next t u) (cause : RevokeCause)
    (hset : u.machine.state = .taken) : Passes next t (revokeHolder cause u) := by
  simp only [Arbitrator.revokeHolder]
  split
  · exact h
  · apply moveTo
    · apply sendTo
      exact h.update _ rfl rfl rfl
    · rw [machine_sendTo, Turn.machine_update, hset]
      exact .inr (hturns .taken (by decide))

theorem promote (h : Passes next t u) (former : Option Talker) (second : Talker)
    (hset : u.machine.state.turnover ≠ []) : Passes next t (promote former second u) := by
  have hpromoted : Passes next t (promoted former second u) := by
    apply refreshT4
    apply moveToTaken hturns
    · apply startT2
      apply broadcastExcept
      exact (h.dismiss former).update _ rfl rfl rfl
    · rw [Arbitrator.startT2, Turn.start, Turn.machine_arm, Turn.machine_update,
        machine_broadcastExcept, Turn.machine_update, machine_dismiss]
      exact hset
  have hstate : (promoted former second u).machine.state = .taken :=
    (congrArg Places.state places_refreshT4).trans (state_moveTo .taken)
  rw [promote_eq_promoted]
  split
  · exact hpromoted
  · split
    · exact hpromoted.revokeHolder hturns _ hstate
    · apply queueOrDeny
      exact hpromoted.update _ rfl rfl rfl

theorem endHolder (h : Passes next t u) (hoccupied : u.machine.occupied = true) :
    Passes next t (endHolder u) := by
  obtain ⟨hset, hidle⟩ : u.machine.state.turnover ≠ [] ∧ .idle ∈ next u.machine.state := by
    simp only [occupied] at hoccupied
    cases hstate : u.machine.state with
    | taken | pendingRevoke => exact ⟨by decide, hturns _ (by decide)⟩
    | startStop | initialising | idle | releasing =>
      rw [hstate] at hoccupied
      cases hoccupied
  have hvacated : Passes next t (vacated u) := h.update _ rfl rfl rfl
  have hgranted (who : Talker) {v : Turn Arbitrator} (hv : Passes next t v)
      (hstate : v.machine.state = u.machine.state) :
      Passes next t (Arbitrator.grant who (Arbitrator.dismiss u.machine.places.holder v)) := by
    apply grant hturns (hv.dismiss _)
    rw [machine_dismiss, hstate]
    exact hset
  cases hsecond : u.machine.places.second with
  | some second =>
    rw [endHolder_of_second hsecond]
    exact hvacated.promote hturns _ _ hset
  | none =>
    cases hpreemptor : u.machine.places.preemptor with
    | some who =>
      rw [endHolder_of_preemptor hsecond hpreemptor]
      exact hgranted who (hvacated.update _ rfl rfl rfl) rfl
    | none =>
      cases hqueue : u.machine.places.queue.entries with
      | cons entry rest =>
        rw [endHolder_of_queue hsecond hpreemptor hqueue]
        exact hgranted _ (hvacated.update _ rfl rfl rfl) rfl
      | nil =>
        rw [endHolder_of_nobody hsecond hpreemptor hqueue]
        exact (hvacated.broadcastExcept _ _).becomeIdle hturns (.inr hidle)

private theorem requestWhileOccupied (h : Passes next t u) (r : Request) (receiveOnly : Bool) :
    Passes next t (requestWhileOccupied r receiveOnly u) := by
  have hreaction := reaction_requestWhileOccupied r receiveOnly u
  generalize Arbitrator.requestWhileOccupied r receiveOnly u = v at hreaction ⊢
  cases hreaction with
  | holder | waiting | preemptor | listens => exact h.sendTo _ _
  | second =>
    simp only [onDual, DualFloor.resendGrant]
    split <;> exact h.quietly rfl rfl rfl rfl
  | seconded =>
    simp only [onDual, DualFloor.grant]
    split <;> exact h.quietly rfl rfl rfl rfl
  | preempted _ _ _ _ _ hstate => exact (h.update _ rfl rfl rfl).revokeHolder hturns _ hstate
  | @supplanted _ former _ _ _ _ hstate =>
    apply revokeHolder hturns
    · exact (h.queueOrDeny former true).update _ rfl rfl rfl
    · exact (state_queueOrDeny former true u).trans hstate
  | parked => exact h.update _ rfl rfl rfl
  | displaced => exact (h.update _ rfl rfl rfl).queueOrDeny _ _
  | enlisted => exact h.queueOrDeny _ _

private theorem receiveRelease (h : Passes next t u) (ssrc : Ssrc) :
    Passes next t (receiveRelease ssrc u) := by
  simp only [Arbitrator.receiveRelease]
  split
  · split
    · exact h.sendTo _ _
    · exact h
  · next hoccupied =>
    split
    · exact h.endHolder hturns (by simpa using hoccupied)
    split
    · split
      · exact (h.update _ rfl rfl rfl).broadcastExcept _ _
      · exact h.update _ rfl rfl rfl
    · apply refreshT4
      simp only [sendTaken]
      split
      · exact (h.update _ rfl rfl rfl).sendTo _ _
      · exact h.update _ rfl rfl rfl

theorem receive (h : Passes next t u) (message : Message) : Passes next t (receive message u) := by
  cases message with
  | request r =>
    simp only [Arbitrator.receive, receiveRequest]
    split
    · exact h
    split
    · next hstate =>
      split
      · exact h.sendTo _ _
      · exact h.grant hturns _ (by rw [hstate]; decide)
    · exact h.requestWhileOccupied hturns _ _
    · exact h.requestWhileOccupied hturns _ _
    all_goals exact h
  | release ssrc => exact h.receiveRelease hturns ssrc
  | queuePositionRequest ssrc =>
    simp only [Arbitrator.receive, receiveQueuePositionRequest]
    split
    · exact h.sendTo _ _
    · split
      · exact h.sendTo _ _
      · exact h
  | ack ssrc acked =>
    apply h.update <;> simp only [receiveAck] <;> split <;> rfl
  | granted | denied | idle | taken | revoke | queuePositionInfo => exact h

omit hturns in
private theorem sendPositions (h : Passes next t u) (positions : List (QueueEntry × Nat)) :
    Passes next t
      (positions.foldl (fun t (entry, position) => sendPosition entry.ssrc position t) u) := by
  induction positions generalizing u with
  | nil => exact h
  | cons position rest ih => exact ih (h.sendTo _ _)

omit hturns in
private theorem expireT20 (h : Passes next t u) (ticket : Ticket) :
    Passes next t (expireT20 ticket u) := by
  have hinner : (DualFloor.expire ticket ⟨u.machine.dual, u.out⟩).2.out.events = u.out.events := by
    simp only [DualFloor.expire, DualFloor.resendGrant]
    split
    · rfl
    split
    · rfl
    split
    · rfl
    · split <;> rfl
  simp only [Arbitrator.expireT20]
  have hmiddle : Passes next t ⟨{ u.machine with
      dual := (DualFloor.expire ticket ⟨u.machine.dual, u.out⟩).2.machine },
      (DualFloor.expire ticket ⟨u.machine.dual, u.out⟩).2.out⟩ :=
    h.quietly rfl rfl rfl (congrArg notices hinner)
  split
  · exact (hmiddle.sendTo _ _).quietly rfl rfl rfl (by simp [notices, FloorEvent.noteworthy])
  · exact hmiddle
  · exact hmiddle

theorem expire (h : Passes next t u) (ticket : Ticket) : Passes next t (expire ticket u) := by
  have hrests (f : Arbitrator → Arbitrator)
      (hf : (f u.machine).callType = u.machine.callType ∧
        (f u.machine).roster = u.machine.roster ∧ (f u.machine).state = u.machine.state) :
      Passes next t (u.update f) := h.update f hf.1 hf.2.1 hf.2.2
  simp only [Arbitrator.expire]
  split
  · split
    · simp only [expireT1]
      split
      · exact ((hrests _ ⟨rfl, rfl, rfl⟩).sendTo _ _).startT1
      · exact hrests _ ⟨rfl, rfl, rfl⟩
    · exact h
  · split
    · simp only [expireT2]
      split
      · next hstate => exact (hrests _ ⟨rfl, rfl, rfl⟩).revokeHolder hturns _ hstate
      · exact hrests _ ⟨rfl, rfl, rfl⟩
    · exact h
  · split
    · simp only [expireT3]
      split
      · next hstate =>
        exact (hrests _ ⟨rfl, rfl, rfl⟩).endHolder hturns (by rw [occupied, hstate]; rfl)
      · exact hrests _ ⟨rfl, rfl, rfl⟩
    · exact h
  · split
    · exact ((hrests _ ⟨rfl, rfl, rfl⟩).sendPositions _).refreshT4
    · exact h
  · split
    · simp only [expireT7]
      split
      · have hcounted := (hrests _ ⟨rfl, rfl, rfl⟩ : Passes next t
          (u.update fun a => { a with t7 := a.t7.rest })).update
            (fun a => { a with c7 := a.c7.increment }) rfl rfl rfl
        split
        · exact hcounted
        · exact (hcounted.broadcastExcept _ _).startT7
      · exact hrests _ ⟨rfl, rfl, rfl⟩
    · exact h
  · exact h.expireT20 ticket
  all_goals exact h

/-- As soon as everybody is ready, the set-up is over. -/
theorem checkReady (h : Passes next t u)
    (hedge : u.machine.state = .idle ∨ .idle ∈ next u.machine.state) :
    Passes next t (checkReady u) := by
  simp only [Arbitrator.checkReady]
  split
  · exact (h.broadcastExcept _ _).becomeIdle hturns hedge
  · exact h

theorem implicitFloorRequest (h : Passes next t u) {ssrc : Ssrc}
    (hv : implicitFloorRequest ssrc u = .ok v) : Passes next t v := by
  simp only [Arbitrator.implicitFloorRequest] at hv
  split at hv
  · cases hv
  cases hv
  split
  · next hstate => exact h.grantImplicit hturns _ (by rw [hstate]; decide)
  · exact h.update _ rfl rfl rfl
  all_goals exact h

theorem relieved (h : Passes next t u) (ssrc : Ssrc) : Passes next t (relieved ssrc u) := by
  simp only [Arbitrator.relieved]
  split
  · next hholds =>
    rw [Bool.and_eq_true] at hholds
    exact h.endHolder hturns hholds.2
  · exact h.refreshT4

end Passes

/-- A party that is ready is entered first; the rest of the turn goes along the edges. -/
theorem passes_callInitialized {ssrc : Ssrc} (hu : callInitialized ssrc t = .ok u) :
    Passes ArbitratorState.next (t.update fun a =>
      { a with roster := a.roster.modify ssrc fun proxy => { proxy with ready := true } }) u := by
  have hturns := ArbitratorState.turnover_subset
  simp only [callInitialized] at hu
  split at hu
  · cases hu
  cases hu
  split
  · next hstate =>
    have hmoved : Passes ArbitratorState.next (t.update fun a =>
        { a with roster := a.roster.modify ssrc fun proxy => { proxy with ready := true } })
        (Arbitrator.moveTo .initialising (t.update fun a =>
          { a with roster := a.roster.modify ssrc fun proxy => { proxy with ready := true } })) :=
      (Passes.refl _).moveTo (.inr (by rw [hstate]; decide))
    exact hmoved.checkReady hturns (.inr (by rw [state_moveTo]; decide))
  · next hstate => exact (Passes.refl _).checkReady hturns (.inr (by rw [hstate]; decide))
  · exact (Passes.refl _).sendTo _ _
  · split
    · exact (Passes.refl _).sendTo _ _
    · exact .refl _
  · split
    · exact (Passes.refl _).sendTo _ _
    · exact .refl _
  · exact .refl _

/-- A party that leaves is forgotten first. -/
theorem passes_clientRelease {ssrc : Ssrc} (hu : clientRelease ssrc t = .ok u) :
    Passes ArbitratorState.next (forgotten ssrc t) u := by
  have hturns := ArbitratorState.turnover_subset
  have hrelieved : Passes ArbitratorState.next (forgotten ssrc t)
      (relieved ssrc (forgotten ssrc t)) := (Passes.refl _).relieved hturns ssrc
  rw [eq_of_clientRelease hu]
  split
  · next hstate => exact hrelieved.checkReady hturns (.inr (by rw [hstate]; decide))
  · exact hrelieved

theorem passes_beginRelease : Passes ArbitratorState.next t (beginRelease t) := by
  have hrevoke (who : Option Talker) {v : Turn Arbitrator} (hv : Passes ArbitratorState.next t v) :
      Passes ArbitratorState.next t (revokeForRelease who v) := by
    cases who with
    | none => exact hv
    | some _ => exact hv.sendTo _ _
  have hdeny (entries : List QueueEntry) {v : Turn Arbitrator}
      (hv : Passes ArbitratorState.next t v) : Passes ArbitratorState.next t
        (entries.foldl (fun t entry => deny entry.ssrc .callReleased t) v) := by
    induction entries generalizing v with
    | nil => exact hv
    | cons entry rest ih => exact ih (hv.sendTo _ _)
  have hstart : Passes ArbitratorState.next t t := .refl t
  have hstopped := hstart.update (fun a =>
    { a.stopTimers with
      holder := none, preemptor := none, implicitRequest := none
      dual := a.stopTimers.dual.vacate
      queue := a.queue.clear }) rfl rfl rfl
  have hrevoked := hrevoke t.machine.dual.talker (hrevoke t.machine.holder hstopped)
  have hreleases (s : ArbitratorState) : s = .releasing ∨ .releasing ∈ s.next := by
    cases s <;> decide
  simp only [beginRelease]
  apply Passes.moveTo _ (hreleases _)
  apply hdeny
  split
  · exact hrevoked.sendTo _ _
  · exact hrevoked

/-- When the call is down, nobody is in the roster. -/
theorem passes_finishRelease (t : Turn Arbitrator) :
    ∃ roster, Passes ArbitratorState.next (t.update fun a => { a with roster := roster })
      (finishRelease t) := by
  simp only [finishRelease]
  split
  · next hstate =>
    refine ⟨.empty, (Passes.refl _).moveTo (.inr ?_)⟩
    rw [Turn.machine_update, hstate]
    decide
  · exact ⟨t.machine.roster, .refl _⟩

end FloorControl.Arbitrator
