import FloorControl.Proofs.MessageAnswers

/-!
# Runs of the arbitrator

Whatever happens to an arbitrator, in whatever order, its places stay sound. That covers the steps
by which the call is taken down, after which nobody is in any place and nothing that comes late
puts anybody into one.
-/

namespace FloorControl.Arbitrator

variable {t : Turn Arbitrator} {a : Arbitrator}

def Places.emptied (p : Places) : Places :=
  { p with
    state := .releasing, queue := p.queue.clear, holder := none, second := none
    preemptor := none, implicitRequest := none }

theorem machine_revokeForRelease (who : Option Talker) :
    (revokeForRelease who t).machine = t.machine := by
  cases who with
  | none => rfl
  | some h => exact machine_sendTo _ _

private theorem machine_denyEach (entries : List QueueEntry) (u : Turn Arbitrator) :
    (entries.foldl (fun t entry => deny entry.ssrc .callReleased t) u).machine = u.machine := by
  induction entries generalizing u with
  | nil => rfl
  | cons e entries ih => rw [List.foldl_cons, ih, machine_deny]

/-- The call is taken down by emptying every place, and then by a change of state. -/
theorem exists_moveTo_releasing (t : Turn Arbitrator) :
    ∃ u : Turn Arbitrator, beginRelease t = moveTo .releasing u ∧
      u.machine = { t.machine.stopTimers with
        holder := none, preemptor := none, implicitRequest := none
        dual := t.machine.stopTimers.dual.vacate
        queue := t.machine.queue.clear } := by
  refine ⟨_, rfl, ?_⟩
  rw [machine_denyEach]
  split
  · rw [machine_deny, machine_revokeForRelease, machine_revokeForRelease]
    rfl
  · rw [machine_revokeForRelease, machine_revokeForRelease]
    rfl

theorem places_beginRelease : (beginRelease t).machine.places = t.machine.places.emptied := by
  obtain ⟨u, heq, hu⟩ := exists_moveTo_releasing t
  rw [heq, places_moveTo, hu]
  rfl

theorem sound_emptied (p : Places) : p.emptied.Sound :=
  .of_empty rfl rfl rfl

theorem sound_finishRelease (hsound : t.machine.places.Sound) :
    (finishRelease t).machine.places.Sound := by
  simp only [finishRelease]
  split
  · next hstate =>
    have hvacant : t.machine.places.state.occupied = false := by
      change t.machine.state.occupied = false
      rw [hstate]
      rfl
    have himplicit := hsound.implicit_eq_none (by change t.machine.state ≠ _; simp [hstate])
    rw [places_moveTo]
    exact .of_empty rfl (hsound.placed_eq_nil hvacant) himplicit
  · exact hsound

/-- What comes in while the call is taken down changes nothing. -/
theorem places_receive_of_releasing (message : Message) (hsound : t.machine.places.Sound)
    (hstate : t.machine.places.state = .releasing) :
    (receive message t).machine.places = t.machine.places := by
  have hvacant : t.machine.places.state.occupied = false := by rw [hstate]; rfl
  have hpreemptor : t.machine.preemptor = none := hsound.preemptor_eq_none (by simp [hstate])
  have hstate' : t.machine.state = .releasing := hstate
  cases message with
  | request r =>
    simp only [receive, receiveRequest, hstate']
    split <;> rfl
  | release ssrc =>
    have hvacant : t.machine.occupied = false := hvacant
    simp [receive, receiveRelease, hvacant, hstate']
  | queuePositionRequest ssrc =>
    simp only [receive, receiveQueuePositionRequest, hpreemptor]
    split
    · rw [machine_sendPosition]
    · rfl
  | ack ssrc acked => exact places_receiveAck ssrc acked t.machine
  | granted | denied | idle | taken | revoke | queuePositionInfo => rfl

theorem places_expire_of_releasing (ticket : Ticket) (hsound : t.machine.places.Sound)
    (hstate : t.machine.places.state = .releasing) :
    (expire ticket t).machine.places = t.machine.places := by
  have hvacant : t.machine.places.state.occupied = false := by rw [hstate]; rfl
  have hstate' : t.machine.state = .releasing := hstate
  have hsecond : t.machine.dual.talker = none := hsound.second_eq_none hvacant
  simp only [expire]
  split
  · simp only [expireT1, Turn.machine_update, hstate']
    split <;> rfl
  · simp only [expireT2, Turn.machine_update, hstate']
    split <;> rfl
  · simp only [expireT3, Turn.machine_update, hstate']
    split <;> rfl
  · rw [expireT4, apply_ite (fun u : Turn Arbitrator => u.machine.places), places_refreshT4,
      machine_sendPositions]
    exact ite_self _
  · simp only [expireT7, Turn.machine_update, hstate']
    split <;> rfl
  · cases haccepts : t.machine.dual.t20.accepts ticket with
    | false =>
      simp only [expireT20, DualFloor.expire, haccepts]
      rfl
    | true =>
      simp only [expireT20, DualFloor.expire, haccepts, Bool.not_true, Bool.false_eq_true, if_false,
        Turn.machine_update, hsecond]
      exact congrArg (fun second => { t.machine.places with second := second }) hsecond.symm
  all_goals rfl

/-- The arbitrator after one more input. A refused one changes nothing. -/
def after (input : Input) (a : Arbitrator) : Arbitrator :=
  match a.handle input with
  | .ok t => t.machine
  | .error _ => a

def sent (input : Input) (a : Arbitrator) : List Envelope :=
  match a.handle input with
  | .ok t => t.out.messages
  | .error _ => []

def run (inputs : List Input) (a : Arbitrator) : Arbitrator :=
  inputs.foldl (fun a input => a.after input) a

theorem sound_create (callId : CallId) (callType : CallType) (config : ArbitratorConfig) :
    (create callId callType config).places.Sound :=
  .of_empty rfl rfl rfl

/-- One step keeps the places sound, whatever comes. -/
theorem sound_after (input : Input) (hsound : a.places.Sound) : (a.after input).places.Sound := by
  simp only [after]
  split
  swap
  · exact hsound
  next u hu =>
  cases input with
  | add ssrc priority originator =>
    simp only [handle] at hu
    cases hadd : a.addParticipant ssrc priority originator with
    | error e => simp [hadd, Except.map] at hu
    | ok b =>
      simp only [hadd, Except.map] at hu
      cases hu
      obtain ⟨-, -, -, hb⟩ := leads_addParticipant hsound hadd
      exact hb
  | initialized ssrc =>
    exact (leads_callInitialized (fun _ => False) (t := ⟨a, {}⟩) hsound rfl hu).2.sound
  | implicitRequest ssrc => exact sound_implicitFloorRequest (t := ⟨a, {}⟩) hsound rfl hu
  | leave ssrc =>
    exact (leads_clientRelease (fun _ => False) (t := ⟨a, {}⟩) hsound rfl hu).2.sound
  | receive message =>
    cases hu
    exact (leads_receive message (t := ⟨a, {}⟩) hsound rfl).sound
  | expire ticket =>
    cases hu
    exact (leads_expire (fun _ => False) ticket (t := ⟨a, {}⟩) hsound rfl).sound
  | beginRelease =>
    cases hu
    rw [places_beginRelease]
    exact sound_emptied _
  | finishRelease =>
    cases hu
    exact sound_finishRelease hsound
  | stopTimers =>
    cases hu
    exact hsound

theorem sound_run_of_sound (inputs : List Input) (hsound : a.places.Sound) :
    (a.run inputs).places.Sound := by
  induction inputs generalizing a with
  | nil => exact hsound
  | cons input inputs ih => exact ih (sound_after input hsound)

/-- However an arbitrator is configured and whatever happens to it, its places are sound. -/
theorem sound_run (callId : CallId) (callType : CallType) (config : ArbitratorConfig)
    (inputs : List Input) : ((create callId callType config).run inputs).places.Sound :=
  sound_run_of_sound inputs (sound_create callId callType config)

end FloorControl.Arbitrator
