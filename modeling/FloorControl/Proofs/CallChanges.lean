import FloorControl.Proofs.Attendance
import FloorControl.Proofs.ParticipantPath

/-!
# What changes in a call

An operation, or an event that is handed over, changes a call in one of a few ways: a participant or
the arbitrator takes a turn by itself, both take a turn for one party that is set up or granted the
floor, or a party comes or leaves. Setting up all parties is several such changes, each of them of a
call that can be reached. This module says once, for every happening but the end of the call, which
change it is and what is told of it, because the arbitrator never refuses a party that is there.
-/

namespace FloorControl

namespace Arbitrator

variable {t : Turn Arbitrator} {x : Ssrc}

theorem exists_callInitialized (hknown : t.machine.roster.contains x = true) :
    ∃ u, callInitialized x t = .ok u := by
  simp [callInitialized, hknown]

theorem exists_implicitFloorRequest (hknown : t.machine.roster.contains x = true) :
    ∃ u, implicitFloorRequest x t = .ok u := by
  simp [implicitFloorRequest, hknown]

end Arbitrator

namespace Session

inductive Change (s : Session) : Outbox → Machines → Prop where
  | nothing : Change s {} s.machines
  | party {x : Ssrc} {p : Participant} {input : Participant.Input} :
      s.participants.get? x = some p → input.Solo p →
      Change s (p.handle input).out
        ⟨s.arbitrator, s.participants.modify x fun _ => (p.handle input).machine⟩
  | received (message : Message) :
      Change s (Arbitrator.receive message ⟨s.arbitrator, {}⟩).out
        ⟨(Arbitrator.receive message ⟨s.arbitrator, {}⟩).machine, s.participants⟩
  | expired (ticket : Ticket) :
      Change s (Arbitrator.expire ticket ⟨s.arbitrator, {}⟩).out
        ⟨(Arbitrator.expire ticket ⟨s.arbitrator, {}⟩).machine, s.participants⟩
  | setUp {x : Ssrc} {p : Participant} {u : Turn Arbitrator} : s.participants.get? x = some p →
      Arbitrator.callInitialized x ⟨s.arbitrator, (p.handle .initialized).out⟩ = .ok u →
      Change s u.out
        ⟨u.machine, s.participants.modify x fun _ => (p.handle .initialized).machine⟩
  | granted {x : Ssrc} {p : Participant} {u : Turn Arbitrator} : s.participants.get? x = some p →
      Arbitrator.implicitFloorRequest x
        ⟨s.arbitrator, (p.handle (.established true p.priority)).out⟩ = .ok u →
      Change s u.out ⟨u.machine,
        s.participants.modify x fun _ => (p.handle (.established true p.priority)).machine⟩
  | joined {x : Ssrc} {priority : Priority} {originator : Bool} {a : Arbitrator} :
      s.arbitrator.addParticipant x priority originator = .ok a →
      Change s {} ⟨a, s.participants.insert x
        (.create s.callId x s.callType priority originator s.config.participant)⟩
  | left {x : Ssrc} {p : Participant} {u : Turn Arbitrator} : s.participants.get? x = some p →
      Arbitrator.clientRelease x ⟨s.arbitrator, {}⟩ = .ok u →
      Change s (Participant.beginRelease ⟨p, u.out⟩).out ⟨u.machine, s.participants.erase x⟩

/-- One call comes from another by one change, and the changes of state are told. -/
structure Alters (r r' : Run) : Prop where
  exists_change : ∃ out told, Change r.state out r'.state.machines ∧ r'.trace = r.trace ++ told ∧
    notices (told.map (·.event)) = notices out.events
  callType : r'.state.callType = r.state.callType
  active : r'.state.active = r.state.active

/-- One call comes from another by changes of calls that can be reached. -/
def Alterations (config : SessionConfig) : Run → Run → Prop :=
  Relation.ReflTransGen fun r r' => (∃ phase h, Reached config phase h r) ∧ Alters r r'

variable {config : SessionConfig} {phase : Phase} {h : History} {r r₁ : Run} {x : Ssrc}
  {p : Participant} {out : Outbox}

theorem Alters.refl (r : Run) : Alters r r :=
  ⟨⟨{}, [], .nothing, by simp, rfl⟩, rfl, rfl⟩

/-- What an outbox holds is told, and only its events are about states. -/
theorem trace_dispatch (out : Outbox) (r : Run) :
    ∃ told, (dispatch out r).trace = r.trace ++ told ∧
      notices (told.map (·.event)) = notices out.events := by
  refine ⟨r.state.telling out, ?_, ?_⟩
  · simp [Observed.trace, log_dispatch, logged]
  · have hletters : notices (out.messages.map fun e =>
        .messageSent r.state.callId e.sender e.receiver e.message) = [] := by
      simp [notices, FloorEvent.noteworthy]
    simp only [telling, List.map_append, List.map_map, Function.comp_def, notices_append, hletters]
    simp

/-- The machines change and their outbox is dispatched. -/
theorem Alters.of_dispatch (hchange : Change r.state out r₁.state.machines)
    (hlog : r₁.log = r.log) (hcall : r₁.state.callType = r.state.callType)
    (hactive : r₁.state.active = r.state.active) : Alters r (dispatch out r₁) := by
  obtain ⟨told, htrace, hnotices⟩ := trace_dispatch out r₁
  have htrace₁ : r₁.trace = r.trace := congrArg List.reverse hlog
  have hstate := state_dispatch out r₁
  refine ⟨⟨out, told, ?_, by rw [htrace, htrace₁], hnotices⟩, ?_, ?_⟩
  · rw [hstate]
    exact hchange
  · rw [hstate]
    exact hcall
  · rw [hstate]
    exact hactive

/-- Everybody that the call has is known to the arbitrator. -/
theorem Reached.known (hr : Reached config phase h r) (hactive : r.state.active = true)
    (hget : r.state.participants.get? x = some p) :
    r.state.arbitrator.roster.contains x = true :=
  ((hr.stage.fit hactive).known x).trans (Roster.contains_of_get? hget)

private theorem alters_act {input : Participant.Input} (hsolo : ∀ p, input.Solo p) :
    Alters r (act input x r).2 := by
  simp only [act, withParticipant, whenActive]
  split
  · split
    · exact .refl r
    · next p hget => exact .of_dispatch (.party hget (hsolo p)) rfl rfl rfl
  · exact .refl r

/-- Setting the call up at a party that is there is never refused. -/
theorem exists_setUp (hknown : r.state.arbitrator.roster.contains x = true)
    (hactive : r.state.active = true) (hget : r.state.participants.get? x = some p) :
    ∃ u, Arbitrator.callInitialized x ⟨r.state.arbitrator, (p.handle .initialized).out⟩ = .ok u ∧
      setUp x r = (.ok (), dispatch u.out (setArbitrator u.machine
        (setParticipant x (p.handle .initialized).machine r))) := by
  obtain ⟨u, hu⟩ := Arbitrator.exists_callInitialized
    (t := ⟨r.state.arbitrator, (p.handle .initialized).out⟩) hknown
  refine ⟨u, hu, ?_⟩
  simp only [setUp, withParticipant, whenActive, hactive, if_true, hget]
  simp only [Participant.handle] at hu ⊢
  simp only [setParticipant, hu]

/-- Neither is granting the floor to it. -/
theorem exists_establish (hknown : r.state.arbitrator.roster.contains x = true)
    (hactive : r.state.active = true) (hget : r.state.participants.get? x = some p) :
    ∃ u, Arbitrator.implicitFloorRequest x
        ⟨r.state.arbitrator, (p.handle (.established true p.priority)).out⟩ = .ok u ∧
      establish x true r = (.ok (), dispatch u.out (setArbitrator u.machine
        (setParticipant x (p.handle (.established true p.priority)).machine r))) := by
  obtain ⟨u, hu⟩ := Arbitrator.exists_implicitFloorRequest
    (t := ⟨r.state.arbitrator, (p.handle (.established true p.priority)).out⟩) hknown
  refine ⟨u, hu, ?_⟩
  simp only [establish, withParticipant, whenActive, hactive, if_true, hget]
  simp only [Participant.handle] at hu ⊢
  simp only [setParticipant, hu]

theorem alters_setUp (hr : Reached config phase h r) (hactive : r.state.active = true) :
    Alters r (setUp x r).2 := by
  cases hget : r.state.participants.get? x with
  | none =>
    simp only [setUp, withParticipant, whenActive, hactive, if_true, hget]
    exact .refl r
  | some p =>
    obtain ⟨u, hu, heq⟩ := exists_setUp (hr.known hactive hget) hactive hget
    rw [heq]
    exact .of_dispatch (.setUp hget hu) rfl rfl rfl

private theorem alters_establish (hr : Reached config phase h r) (hactive : r.state.active = true)
    (granted : Bool) : Alters r (establish x granted r).2 := by
  cases hget : r.state.participants.get? x with
  | none =>
    simp only [establish, withParticipant, whenActive, hactive, if_true, hget]
    exact .refl r
  | some p =>
    cases granted with
    | true =>
      obtain ⟨u, hu, heq⟩ := exists_establish (hr.known hactive hget) hactive hget
      rw [heq]
      exact .of_dispatch (.granted hget hu) rfl rfl rfl
    | false =>
      have hsolo := Participant.Input.Solo.established false p
      simp only [establish, withParticipant, whenActive, hactive, if_true, hget]
      exact .of_dispatch (.party hget hsolo) rfl rfl rfl

private theorem alters_join {priority : Priority} {originator : Bool} :
    Alters r (join x priority originator r).2 := by
  simp only [join, whenActive]
  split
  · split
    · exact .refl r
    · next a hadded =>
      exact ⟨⟨{}, [], .joined hadded, by simp [Observed.trace], rfl⟩, rfl, rfl⟩
  · exact .refl r

private theorem alters_clientRelease (hr : Reached config phase h r)
    (hactive : r.state.active = true) : Alters r (clientRelease x r).2 := by
  simp only [clientRelease, whenActive, hactive, if_true]
  split
  · exact .refl r
  · next u hu =>
    have hknown : r.state.participants.contains x = true := by
      refine ((hr.stage.fit hactive).known x).symm.trans ?_
      by_contra hstranger
      change ¬ r.state.arbitrator.roster.contains x = true at hstranger
      simp [Arbitrator.clientRelease, hstranger] at hu
    obtain ⟨p, hget⟩ := Roster.exists_get?_of_contains hknown
    simp only [setArbitrator, hget]
    exact .of_dispatch (.left hget hu) rfl rfl rfl

/-- An operation that neither moves the clock nor is about all parties is one change. -/
theorem alters_perform (hr : Reached config .resting h r) (op : Operation)
    (hinstant : op.Instant r.state) (hone : op ≠ .setUpAll) : Alters r (perform op r).2 := by
  cases hactive : r.state.active with
  | false =>
    rw [perform_of_over op hinstant hactive]
    exact .refl r
  | true =>
    cases op with
    | join ssrc priority originator => exact alters_join
    | setUp ssrc => exact alters_setUp hr hactive
    | setUpAll => exact absurd rfl hone
    | establish ssrc granted => exact alters_establish hr hactive granted
    | push | releaseTalk | accept | askPosition | setDual | setIndicator =>
      exact alters_act fun _ => ⟨by simp, by simp, by simp, by simp⟩
    | leave ssrc => exact alters_clientRelease hr hactive
    | release => simpa [hactive] using hinstant.down rfl
    | runUntilIdle | advanceTo | advanceBy =>
      have hstill := hinstant.still
      simp [Operation.target?] at hstill

private theorem alterations_setUpEach (ssrcs : List Ssrc) (hr : Reached config .resting h r)
    (hactive : r.state.active = true) : Alterations config r (setUpEach ssrcs r).2 := by
  induction ssrcs generalizing h r with
  | nil => exact .refl
  | cons x rest ih =>
    have hfirst : Alters r (setUp x r).2 := alters_setUp hr hactive
    have hnext : Reached config .resting _ (setUp x r).2 :=
      hr.performed (.setUp x) ⟨rfl, by simp⟩
    have halters : Alterations config r (setUp x r).2 := .single ⟨⟨_, h, hr⟩, hfirst⟩
    simp only [setUpEach]
    split
    · next r' heq =>
      rw [heq] at hfirst hnext halters
      exact halters.trans (ih hnext (hfirst.active.trans hactive))
    · exact halters

/-- An operation that does not move the clock is a few changes of calls that can be reached. -/
theorem alterations_perform (hr : Reached config .resting h r) (op : Operation)
    (hinstant : op.Instant r.state) : Alterations config r (perform op r).2 := by
  by_cases hall : op = .setUpAll
  · subst hall
    cases hactive : r.state.active with
    | false =>
      rw [perform_of_over _ hinstant hactive]
      exact .refl
    | true => exact alterations_setUpEach _ hr hactive
  · exact .single ⟨⟨_, h, hr⟩, alters_perform hr op hinstant hall⟩

/-- An event that is handed over is one change. -/
theorem alters_deliver (event : SessionEvent) (scheduler : Scheduler SessionEvent) (r : Run) :
    Alters r (deliver event { r with state := { r.state with scheduler := scheduler } }) := by
  have hparty (x : Ssrc) (input : Participant.Input) (hsolo : ∀ p, input.Solo p) :
      Alters r (onParticipant x (fun t => t.machine.handle input)
        { r with state := { r.state with scheduler := scheduler } }) := by
    simp only [onParticipant]
    split
    · exact ⟨⟨{}, [], .nothing, by simp [Observed.trace], rfl⟩, rfl, rfl⟩
    · next p hget => exact .of_dispatch (.party hget (hsolo p)) rfl rfl rfl
  cases event with
  | expiry ticket =>
    simp only [deliver]
    split
    · exact .of_dispatch (.expired ticket) rfl rfl rfl
    · next x _ => exact hparty x (.expire ticket) fun _ => ⟨by simp, by simp, by simp, by simp⟩
  | toArbitrator message => exact .of_dispatch (.received message) rfl rfl rfl
  | toParticipant x message =>
    exact hparty x (.receive message) fun _ => ⟨by simp, by simp, by simp, by simp⟩

inductive Step : Phase → Run → Phase → Run → Prop where
  | performed {r : Run} (op : Operation) : op.Instant r.state →
      Step .resting r .resting (perform op r).2
  | started {r : Run} {t : Nat} (op : Operation) : op.target? r.state = some t →
      Step .resting r (.advancing t) r
  | delivered {phase : Phase} {r : Run} {t : Nat} {event : SessionEvent}
      {scheduler : Scheduler SessionEvent} : phase.until? = some t →
      r.state.scheduler.popDue t = some (event, scheduler) →
      Step phase r phase (deliver event { r with state := { r.state with scheduler := scheduler } })
  | settled {r : Run} {t : Nat} : deliverNext? t r = none →
      Step (.advancing t) r .resting (settle t r)
  | ending {r : Run} : r.state.active = true →
      Step .resting r (.ending (beginRelease r).state.now) (beginRelease r)
  | ended {r : Run} {t : Nat} : deliverNext? t r = none →
      Step (.ending t) r .resting (finishRelease (settle t r))

/-- What holds of a new call and is kept by every step holds of every call. -/
theorem Reached.of_step {P : Phase → Run → Prop} (hr : Reached config phase h r)
    (hcreated : ∀ callId callType now,
      P .resting ⟨Session.create callId callType config now, []⟩)
    (hstep : ∀ {phase h r phase' r'}, Reached config phase h r → Step phase r phase' r' →
      P phase r → P phase' r') : P phase r := by
  induction hr with
  | created callId callType now => exact hcreated callId callType now
  | performed op hr hinstant ih => exact hstep hr (.performed op hinstant) ih
  | started op hr htarget ih => exact hstep hr (.started op htarget) ih
  | delivered hr huntil hpop ih => exact hstep hr (.delivered huntil hpop) ih
  | settled hr hnone ih => exact hstep hr (.settled hnone) ih
  | ending hr hactive ih => exact hstep hr (.ending hactive) ih
  | ended hr hnone ih => exact hstep hr (.ended hnone) ih

end Session
end FloorControl
