import FloorControl.Proofs.Acknowledgement
import FloorControl.Proofs.Outsiders
import FloorControl.Proofs.Repetition
import FloorControl.Proofs.StepDeeds

/-!
# What every arbitrator keeps

Whatever happens to an arbitrator, it keeps the timers that it was made with and the limits up to
which it repeats a message. A timer that does not run takes no ticket any more that was drawn
before: when it is started again, it waits for a later one.
-/

namespace FloorControl

namespace Arbitrator

variable {config : ArbitratorConfig} {a : Arbitrator} {t : Turn Arbitrator} {input : Input}

/-- Whatever happens to an arbitrator but a ticket, its timers are only stopped and started. -/
theorem acts_handle (hinput : ∀ ticket, input ≠ .expire ticket) (ht : a.handle input = .ok t) :
    Winding.Acts ⟨a.timers, []⟩ (winding t) := by
  cases input with
  | add ssrc priority originator =>
    simp only [handle, addParticipant] at ht
    split at ht
    · cases ht
    · cases ht
      exact .refl
  | initialized ssrc => exact acts_callInitialized (t := ⟨a, {}⟩) ht
  | implicitRequest ssrc => exact acts_implicitFloorRequest (t := ⟨a, {}⟩) ht
  | leave ssrc => exact acts_clientRelease (t := ⟨a, {}⟩) ht
  | receive message =>
    cases ht
    exact acts_receive message ⟨a, {}⟩
  | expire ticket => exact absurd rfl (hinput ticket)
  | beginRelease =>
    cases ht
    exact acts_beginRelease ⟨a, {}⟩
  | finishRelease =>
    cases ht
    exact Winding.Acts.of_eq (winding_finishRelease ⟨a, {}⟩).symm
  | stopTimers =>
    cases ht
    exact Winding.Acts.stopAll a.timers []

/-- T20 is offered the ticket that comes, and is then only stopped and started. -/
theorem retires_handle {generation : ℕ} (hmake : a.timers.map Timer.make = makes config)
    (ht : a.handle input = .ok t) (h : a.dual.t20.Retires generation) :
    t.machine.dual.t20.Retires generation := by
  have hafter : (winding t).timers[5]? = some t.machine.dual.t20 := rfl
  by_cases hexpire : ∃ ticket, input = .expire ticket
  · obtain ⟨ticket, rfl⟩ := hexpire
    cases ht
    have hacts := acts_expire ticket (t := ⟨a, {}⟩) hmake
    have hoffered : (a.timers.map (Timer.offer ticket)).map Timer.make = makes config := by
      rw [← hmake]
      simp [Function.comp_def]
    have hdistinct : Winding.Distinct (a.timers.map (Timer.offer ticket)) :=
      .of_map_make hoffered (by simp [makes])
    obtain ⟨before, hbefore, hgoes⟩ := hacts.goes hdistinct hafter
    cases hbefore
    exact (h.offer ticket).goes hgoes
  · have hacts := acts_handle (fun ticket heq => hexpire ⟨ticket, heq⟩) ht
    obtain ⟨before, hbefore, hgoes⟩ := hacts.goes (distinct_timers (t := ⟨a, {}⟩) hmake) hafter
    cases hbefore
    exact h.goes hgoes

theorem upheld_limits (first second : ℕ) :
    Upheld fun t => t.machine.c7.limit = first ∧ t.machine.dual.c20.limit = second where
  update _ hmild h := ⟨hmild.c7.trans h.1, hmild.c20.trans h.2⟩
  post _ _ h := h
  moved _ _ h := h
  arm _ h := h

/-- What comes of a ticket that T20 waits for. -/
theorem expireT20_of_accepts {ticket : Ticket} {who : Talker}
    (haccepts : t.machine.dual.t20.accepts ticket = true)
    (hsecond : t.machine.dual.talker = some who) :
    expireT20 ticket t =
      if t.machine.dual.c20.arrives then
        (sendTo who.ssrc (t.machine.revokeMessage who.ssrc .noResources) (t.update fun a =>
          { a with dual :=
            { a.dual with
              t20 := a.dual.t20.rest, c20 := a.dual.c20.increment, talker := none } })).tell
          (.failure t.machine.callId who.ssrc .dualGrantUnacknowledged)
      else
        ((t.post [t.machine.dual.grantMessage who]).update fun a =>
          { a with dual :=
            { a.dual with t20 := a.dual.t20.rest.start, c20 := a.dual.c20.increment } }).arm
          t.machine.dual.t20.rest.start := by
  cases harrives : t.machine.dual.c20.arrives <;>
    simp [expireT20, DualFloor.expire, haccepts, hsecond, harrives, DualFloor.resendGrant,
      DualFloor.startT20, Turn.start, Turn.update, Turn.post, Turn.arm, DualFloor.grantMessage,
      revokeMessage]

private theorem limits_handle {first second : ℕ} (hinput : a.handle input = .ok t)
    (h : a.c7.limit = first ∧ a.dual.c20.limit = second) :
    t.machine.c7.limit = first ∧ t.machine.dual.c20.limit = second := by
  rcases (upheld_limits first second).handle h hinput with
    hafter | ⟨r, -, -, rfl⟩ | ⟨ticket, -, haccepts, rfl⟩
  · exact hafter
  · simp only [onDual, DualFloor.grant]
    split <;> exact h
  · cases hsecond : a.dual.talker with
    | none =>
      simp only [expireT20, DualFloor.expire, haccepts, Bool.not_true, Bool.false_eq_true, if_false,
        Turn.machine_update, hsecond]
      exact h
    | some who =>
      rw [expireT20_of_accepts haccepts hsecond]
      split
      · rw [Turn.machine_tell, machine_sendTo]
        exact ⟨h.1, (Counter.increment_limit _).trans h.2⟩
      · exact ⟨h.1, (Counter.increment_limit _).trans h.2⟩

private theorem cause_handle (ht : a.handle input = .ok t) (h : a.revokeCause ≠ .noResources) :
    t.machine.revokeCause ≠ .noResources := by
  rcases upheld_cause.handle h ht with hafter | ⟨r, -, -, rfl⟩ | ⟨ticket, -, -, rfl⟩
  · exact hafter
  · exact h
  · rw [cause_expireT20]
    exact h

structure Equipped (config : ArbitratorConfig) (a : Arbitrator) : Prop where
  sound : a.places.Sound
  roomy : a.places.queue.Roomy
  inStep : a.gears.InStep
  cause : a.revokeCause ≠ .noResources
  make : a.timers.map Timer.make = makes config
  c7 : a.c7.limit = config.c7Limit.toNat
  c20 : a.dual.c20.limit = config.c20Limit.toNat

theorem equipped_create (callId : CallId) (callType : CallType) (config : ArbitratorConfig) :
    (create callId callType config).Equipped config where
  sound := sound_create callId callType config
  roomy := roomy_create callId callType config
  inStep := inStep_create callId callType config
  cause := by simp [create]
  make := map_make_create callId callType config
  c7 := rfl
  c20 := rfl

private theorem make_handle (hmake : a.timers.map Timer.make = makes config)
    (ht : a.handle input = .ok t) : t.machine.timers.map Timer.make = makes config := by
  rw [← hmake]
  by_cases hexpire : ∃ ticket, input = .expire ticket
  · obtain ⟨ticket, rfl⟩ := hexpire
    cases ht
    refine (acts_expire ticket (t := ⟨a, {}⟩) hmake).map_make.trans ?_
    simp [Function.comp_def]
  · exact (acts_handle (fun ticket heq => hexpire ⟨ticket, heq⟩) ht).map_make

/-- Whatever happens to an arbitrator, it stays what it was made as. -/
theorem equipped_after (input : Input) (hgoes : input ≠ .stopTimers) (h : a.Equipped config) :
    (a.after input).Equipped config := by
  have hsound := sound_after input h.sound
  have hroomy := roomy_after input h.sound h.roomy
  have hsteps := inStep_after input hgoes h.sound h.inStep
  cases ht : a.handle input with
  | error e =>
    have hafter : a.after input = a := by simp [after, ht]
    rw [hafter]
    exact h
  | ok t =>
    have hafter : a.after input = t.machine := by simp [after, ht]
    rw [hafter] at hsound hroomy hsteps ⊢
    obtain ⟨hc7, hc20⟩ := limits_handle ht ⟨h.c7, h.c20⟩
    exact ⟨hsound, hroomy, hsteps, cause_handle ht h.cause, make_handle h.make ht, hc7, hc20⟩

theorem equipped_run (inputs : List Input) (hgoes : .stopTimers ∉ inputs) (h : a.Equipped config) :
    (a.run inputs).Equipped config := by
  induction inputs generalizing a with
  | nil => exact h
  | cons input inputs ih =>
    simp only [List.mem_cons, not_or] at hgoes
    exact ih hgoes.2 (equipped_after input (Ne.symm hgoes.1) h)

/-- What holds of every step of such an arbitrator holds throughout a run. It may rest on what the
steps keep between them. -/
theorem Equipped.throughout {I : Arbitrator → Prop} {P Q : Input → Arbitrator → Prop}
    {inputs : List Input}
    (hstep : ∀ {a : Arbitrator} {input : Input}, a.Equipped config → input ≠ .stopTimers → I a →
      P input a → I (a.after input) ∧ Q input a)
    (h : a.Equipped config) (hgoes : .stopTimers ∉ inputs) (hI : I a)
    (hP : Throughout after P inputs a) : I (a.run inputs) ∧ Throughout after Q inputs a := by
  induction inputs generalizing a with
  | nil => exact ⟨hI, trivial⟩
  | cons input inputs ih =>
    simp only [List.mem_cons, not_or] at hgoes
    obtain ⟨hkept, hQ⟩ := hstep h (Ne.symm hgoes.1) hI hP.1
    obtain ⟨hlast, hlater⟩ := ih (equipped_after input (Ne.symm hgoes.1) h) hgoes.2 hkept hP.2
    exact ⟨hlast, hQ, hlater⟩

theorem retires_run {generation : ℕ} (inputs : List Input) (hgoes : .stopTimers ∉ inputs)
    (ha : a.Equipped config) (h : a.dual.t20.Retires generation) :
    (a.run inputs).dual.t20.Retires generation := by
  induction inputs generalizing a with
  | nil => exact h
  | cons input inputs ih =>
    simp only [List.mem_cons, not_or] at hgoes
    refine ih hgoes.2 (equipped_after input (Ne.symm hgoes.1) ha) ?_
    simp only [after]
    split
    · next t ht => exact retires_handle ha.make ht h
    · exact h

end Arbitrator
end FloorControl
