import FloorControl.Proofs.StateTimers

/-!
# Outsiders

Some of what reaches an arbitrator is none of its business: a message of somebody who is not in the
roster, a message that is meant for a participant, and a ticket that no running timer waits for.
Only requests are checked against the roster. That all the rest of it has no effect either comes
from the places, which are taken by parties of the roster alone, and from T4, which already runs
exactly if it should when a stranger gives back what it never had.
-/

namespace FloorControl

namespace FloorQueue

variable {q : FloorQueue} {ssrc : Ssrc}

theorem position?_of_not_mem (h : ssrc ∉ q.waiting) : q.position? ssrc = none := by
  simpa [position?, mem_waiting] using h

end FloorQueue

namespace Arbitrator

variable {t : Turn Arbitrator} {a : Arbitrator} {ssrc : Ssrc}

/-- Who has no place is not the preemptor. -/
theorem ne_preemptor_of_not_placed (h : ssrc ∉ a.places.placed) :
    ∀ w ∈ a.preemptor, w.ssrc ≠ ssrc := by
  rintro w hw rfl
  exact h (Places.mem_placed.mpr (.inr (Places.mem_awaiting.mpr (.inl ⟨w, hw, rfl⟩))))

theorem not_waiting_of_not_placed (h : ssrc ∉ a.places.placed) : ssrc ∉ a.queue.waiting :=
  fun hwaits => h (Places.mem_placed.mpr (.inr (Places.mem_awaiting.mpr (.inr hwaits))))

/-- Who is not in any place is not told one. -/
theorem receiveQueuePositionRequest_of_not_placed (h : ssrc ∉ t.machine.places.placed) :
    receiveQueuePositionRequest ssrc t = t := by
  have hposition := FloorQueue.position?_of_not_mem (not_waiting_of_not_placed h)
  have hpreemptor : t.machine.preemptor.filter (·.ssrc = ssrc) = none := by
    simpa [Option.filter_eq_none_iff] using ne_preemptor_of_not_placed h
  simp only [receiveQueuePositionRequest, hposition, hpreemptor]

/-- Only the second talker's acknowledgement matters. -/
theorem receiveAck_of_not_placed (acked : MessageKind) (h : ssrc ∉ a.places.placed) :
    receiveAck ssrc acked a = a := by
  simp [receiveAck, DualFloor.acknowledge, (not_talks_of_not_placed h).2]

theorem sendTo_of_stranger (message : Message) (h : t.machine.roster.contains ssrc = false) :
    sendTo ssrc message t = t := by
  simp [sendTo, h]

/-- Only parties of the roster are in places. -/
theorem not_placed_of_stranger (hsound : a.places.Sound) (h : a.roster.contains ssrc = false) :
    ssrc ∉ a.places.placed := by
  intro hplaced
  have hmember : a.roster.contains ssrc = true := (hsound.entitled ssrc hplaced).contains
  rw [h] at hmember
  cases hmember

/-- T4 needs no refreshing between two steps. -/
theorem refreshT4_of_inStep (h : t.machine.gears.InStep) : refreshT4 t = t := by
  have ht4 : t.machine.t4.running = true ↔
      (t.machine.occupied && !t.machine.queue.isEmpty) = true := by
    rw [Bool.and_eq_true]
    exact h.t4
  simp only [refreshT4]
  split
  · next hwanted => rw [if_pos (ht4.mpr hwanted)]
  · next hunwanted =>
    have hrests : t.machine.t4.running = false := by
      rwa [← ht4, Bool.not_eq_true] at hunwanted
    simp [Turn.update, Timer.stop, hrests]

/-- A stranger has nothing to give back, and is not told how the floor stands. -/
theorem receiveRelease_of_stranger (hsound : t.machine.places.Sound)
    (hsteps : t.machine.gears.InStep) (h : t.machine.roster.contains ssrc = false) :
    receiveRelease ssrc t = t := by
  have hplace := not_placed_of_stranger hsound h
  obtain ⟨hholder, htalker⟩ := not_talks_of_not_placed hplace
  have hqueue := FloorQueue.remove_of_not_mem (not_waiting_of_not_placed hplace)
  have hpreemptor : t.machine.preemptor.filter (·.ssrc ≠ ssrc) = t.machine.preemptor := by
    have hother := ne_preemptor_of_not_placed hplace
    cases hw : t.machine.preemptor with
    | none => rfl
    | some w => simpa [Option.filter] using hother w hw
  have hkept : (t.update fun a => { a with
      queue := a.queue.remove ssrc
      preemptor := a.preemptor.filter (·.ssrc ≠ ssrc) }) = t := by
    simp only [Turn.update, hqueue, hpreemptor]
  have htold : sendTaken ssrc t = t := by
    simp only [sendTaken]
    split
    · exact sendTo_of_stranger _ h
    · rfl
  simp only [receiveRelease, hholder, htalker, Bool.false_eq_true, if_false, hkept, htold]
  split
  · split
    · exact sendTo_of_stranger _ h
    · rfl
  · exact refreshT4_of_inStep hsteps

/-- Whether an input is none of the arbitrator's business: what strangers say, what participants
should be told, and tickets that no running timer waits for. -/
def Input.stray (a : Arbitrator) : Input → Bool
  | .receive message =>
    !message.forArbitrator || message.ssrc?.all fun ssrc => !a.roster.contains ssrc
  | .expire ticket => a.timers.all fun timer => !timer.accepts ticket
  | .add .. | .initialized _ | .implicitRequest _ | .leave _ | .beginRelease | .finishRelease
  | .stopTimers => false

private theorem stranger_of_stray {message : Message} (h : (Input.receive message).stray a = true)
    (hours : message.forArbitrator = true) (hssrc : message.ssrc? = some ssrc) :
    a.roster.contains ssrc = false := by
  simpa [Input.stray, hours, hssrc] using h

theorem receive_of_stray {message : Message} (hsound : t.machine.places.Sound)
    (hsteps : t.machine.gears.InStep) (h : (Input.receive message).stray t.machine = true) :
    receive message t = t := by
  cases message with
  | request wish =>
    have hstranger : t.machine.roster.contains wish.ssrc = false := stranger_of_stray h rfl rfl
    have hunknown : t.machine.roster.get? wish.ssrc = none := by
      rwa [Roster.contains_eq_isSome_get?, Option.isSome_eq_false_iff, Option.isNone_iff_eq_none]
        at hstranger
    simp only [receive, receiveRequest, hunknown]
  | release ssrc => exact receiveRelease_of_stranger hsound hsteps (stranger_of_stray h rfl rfl)
  | queuePositionRequest ssrc =>
    have hplace := not_placed_of_stranger hsound (stranger_of_stray h rfl rfl)
    exact receiveQueuePositionRequest_of_not_placed hplace
  | ack ssrc acked =>
    have hplace := not_placed_of_stranger hsound (stranger_of_stray h rfl rfl)
    simp only [receive, Turn.update, receiveAck_of_not_placed acked hplace]
  | granted | denied | idle | taken | revoke | queuePositionInfo => rfl

/-- A ticket that no timer accepts is worth nothing. -/
theorem expire_of_refused {ticket : Ticket}
    (h : ∀ timer ∈ t.machine.timers, timer.accepts ticket = false) : expire ticket t = t := by
  simp only [timers, List.forall_mem_cons] at h
  obtain ⟨h1, h2, h3, h4, h7, h20, -⟩ := h
  simp only [expire, h1, h2, h3, h4, h7, expireT20_of_refused h20]
  split <;> rfl

/-- The arbitrator stays as it is and wants nothing done. -/
theorem handle_of_stray {input : Input} (hsound : a.places.Sound) (hsteps : a.gears.InStep)
    (h : input.stray a = true) : a.handle input = .ok ⟨a, {}⟩ := by
  cases input with
  | receive message =>
    exact congrArg Except.ok (receive_of_stray (t := ⟨a, {}⟩) hsound hsteps h)
  | expire ticket =>
    refine congrArg Except.ok (expire_of_refused (t := ⟨a, {}⟩) fun timer htimer => ?_)
    simpa using List.all_eq_true.mp h timer htimer
  | _ => cases h

/-- Whatever happens to an arbitrator, its timers are right afterwards, unless they are stopped
from outside. -/
theorem inStep_after (input : Input) (hgoes : input ≠ .stopTimers) (hsound : a.places.Sound)
    (h : a.gears.InStep) : (a.after input).gears.InStep := by
  simp only [after]
  split
  swap
  · exact h
  next u hu =>
  cases input with
  | add ssrc priority originator =>
    simp only [handle] at hu
    cases hadd : a.addParticipant ssrc priority originator with
    | error e => simp [hadd, Except.map] at hu
    | ok b =>
      simp only [hadd, Except.map] at hu
      cases hu
      exact inStep_addParticipant h hadd
  | initialized ssrc => exact (Takes.initialized (t := ⟨a, {}⟩) hu).inStep h
  | implicitRequest ssrc => exact (Takes.implicitRequest (t := ⟨a, {}⟩) hu).inStep h
  | leave ssrc => exact (Takes.left (t := ⟨a, {}⟩) hu).inStep h
  | receive message =>
    cases hu
    exact (Takes.received message).inStep h
  | expire ticket =>
    cases hu
    exact inStep_expire ticket (t := ⟨a, {}⟩) h hsound
  | beginRelease =>
    cases hu
    exact Takes.begun.inStep h
  | finishRelease =>
    cases hu
    exact Takes.finished.inStep h
  | stopTimers => exact absurd rfl hgoes

/-- An input in a run, which may have been put in. -/
structure Entry where
  input : Input
  inserted : Bool
  deriving DecidableEq, Repr

/-- One step of a run: the arbitrator before it, the refusal or all that it wants done, and the
arbitrator after it. -/
structure Moment extends Entry where
  before : Arbitrator
  answer : Except FloorError Outbox
  after : Arbitrator

def moments : List Entry → Arbitrator → List Moment
  | [], _ => []
  | e :: rest, a =>
    ⟨e, a, (a.handle e.input).map (·.out), a.after e.input⟩ :: moments rest (a.after e.input)

def genuine (entries : List Entry) : List Entry := entries.filter (!·.inserted)

private theorem unmoved {entries : List Entry} (hsound : a.places.Sound) (hsteps : a.gears.InStep)
    (hgoes : ∀ e ∈ entries, e.input ≠ .stopTimers)
    (hstray : ∀ m ∈ moments entries a, m.inserted = true → m.input.stray m.before = true) :
    (moments entries a).filter (!·.inserted) = moments (genuine entries) a ∧
      (∀ m ∈ moments entries a, m.inserted = true → m.answer = .ok {} ∧ m.after = m.before) ∧
      a.run (entries.map (·.input)) = a.run ((genuine entries).map (·.input)) := by
  induction entries generalizing a with
  | nil => exact ⟨rfl, by simp [moments], rfl⟩
  | cons e rest ih =>
    obtain ⟨input, inserted⟩ := e
    obtain ⟨hfirst, hrest⟩ := List.forall_mem_cons.mp hstray
    obtain ⟨hinput, hgoes⟩ := List.forall_mem_cons.mp hgoes
    obtain ⟨hmoments, hvoid, hrun⟩ := ih (sound_after input hsound)
      (inStep_after input hinput hsound hsteps) hgoes hrest
    cases inserted with
    | false =>
      refine ⟨congrArg (List.cons _) hmoments, List.forall_mem_cons.mpr ⟨nofun, hvoid⟩, hrun⟩
    | true =>
      have hhandled := handle_of_stray hsound hsteps (hfirst rfl)
      have hafter : a.after input = a := by simp only [after, hhandled]
      rw [hafter] at hmoments hvoid hrun
      simp only [moments, hafter]
      refine ⟨hmoments, List.forall_mem_cons.mpr ⟨fun _ => ⟨?_, rfl⟩, hvoid⟩, ?_⟩
      · simp only [hhandled, Except.map]
      · rw [run, List.map_cons, List.foldl_cons, hafter]
        exact hrun

/-- Whatever is put into a run of an arbitrator that is none of its business when it comes, and
wherever, every other step of the run finds the same arbitrator, wants the same done or is refused
for the same reason, and leaves the same arbitrator behind; and what was put in changes nothing and
wants nothing done. -/
theorem strays_change_nothing (callId : CallId) (callType : CallType) (config : ArbitratorConfig)
    (entries : List Entry) (hgoes : ∀ e ∈ entries, e.input ≠ .stopTimers)
    (hstray : ∀ m ∈ moments entries (create callId callType config), m.inserted = true →
      m.input.stray m.before = true) :
    (moments entries (create callId callType config)).filter (!·.inserted) =
        moments (genuine entries) (create callId callType config) ∧
      (∀ m ∈ moments entries (create callId callType config), m.inserted = true →
        m.answer = .ok {} ∧ m.after = m.before) ∧
      (create callId callType config).run (entries.map (·.input)) =
        (create callId callType config).run ((genuine entries).map (·.input)) :=
  unmoved (sound_create callId callType config) (inStep_create callId callType config) hgoes hstray

def disturbed : List Entry :=
  [⟨.add 1 5 true, false⟩, ⟨.add 2 5 false, false⟩, ⟨.initialized 1, false⟩,
    ⟨.receive (.request ⟨9, 9, .emergency, true, true⟩), true⟩, ⟨.initialized 2, false⟩,
    ⟨.receive (.release 9), true⟩, ⟨.receive (.request ⟨1, 5, .normal, false, true⟩), false⟩,
    ⟨.receive (.request ⟨2, 5, .normal, false, true⟩), false⟩, ⟨.receive (.release 9), true⟩,
    ⟨.receive (.ack 9 .granted), true⟩, ⟨.receive (.queuePositionRequest 9), true⟩,
    ⟨.receive (.revoke 1 .preempted false), true⟩, ⟨.expire ⟨.arbitrator, .t7, 1⟩, true⟩,
    ⟨.receive (.release 1), false⟩]

/-- The party that waited has the floor, with and without them. -/
theorem strays_change_nothing_waiting :
    (∀ e ∈ disturbed, e.input ≠ .stopTimers) ∧
      (∀ m ∈ moments disturbed (create 1 .basic {}), m.inserted = true →
        m.input.stray m.before = true) ∧
      ((create 1 .basic {}).run ((genuine disturbed).map (·.input))).holder.map (·.ssrc) = some 2 ∧
      (create 1 .basic {}).run (disturbed.map (·.input)) =
        (create 1 .basic {}).run ((genuine disturbed).map (·.input)) := by
  have hgoes : ∀ e ∈ disturbed, e.input ≠ .stopTimers := by decide
  have hall : (moments disturbed (create 1 .basic {})).all
      (fun m => !m.inserted || m.input.stray m.before) = true := by decide +kernel
  have hstray : ∀ m ∈ moments disturbed (create 1 .basic {}), m.inserted = true →
      m.input.stray m.before = true := fun m hm hinserted => by
    simpa [hinserted] using List.all_eq_true.mp hall m hm
  exact ⟨hgoes, hstray, by decide +kernel, (strays_change_nothing 1 .basic {} _ hgoes hstray).2.2⟩

end Arbitrator
end FloorControl
