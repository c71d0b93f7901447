import FloorControl.Proofs.Leftovers
import FloorControl.Proofs.Outsiders
import FloorControl.Proofs.Pace
import FloorControl.Proofs.Refusals

/-!
# The end of a call

A call is taken down in two halves, and whatever is due when the first is over still arrives before
the second. It finds nobody who heeds it. The first half empties every place and stops every timer,
so that the arbitrator drops all messages and refuses all tickets, and so do the parties. What is
left when the call is down is never changed again: only its clock can be moved.
-/

namespace FloorControl

def FloorEvent.isMove : FloorEvent → Bool
  | .arbitratorMoved .. | .participantMoved .. => true
  | .messageSent .. | .floorGranted .. | .grantPending .. | .floorDenied .. | .floorRevoked ..
  | .failure .. | .callReleased .. => false

namespace Arbitrator

variable {t : Turn Arbitrator} {a : Arbitrator}

/-- An arbitrator under which nobody has the floor, and nobody may ask for it. -/
structure Dormant (a : Arbitrator) : Prop where
  sound : a.places.Sound
  inStep : a.gears.InStep
  unasked : a.state ≠ .idle
  vacant : a.state.occupied = false

namespace Dormant

theorem placed_eq_nil (h : a.Dormant) : a.places.placed = [] := h.sound.placed_eq_nil h.vacant

/-- Nothing is timed. -/
theorem stopped (h : a.Dormant) : ∀ timer ∈ a.timers, timer.running = false := by
  have hstill := h.inStep.still h.unasked h.vacant
  have ht20 : a.dual.t20.running = false := by
    refine Bool.eq_false_iff.mpr fun hruns => ?_
    have hsecond : a.dual.talker = none := h.sound.second_eq_none h.vacant
    have htalks : a.dual.talker.isSome = true := (h.inStep.t20 hruns).1
    simp [hsecond] at htalks
  simp only [timers, List.forall_mem_cons]
  exact ⟨hstill.t1, hstill.t2, hstill.t3, hstill.t4, hstill.t7, ht20, by simp⟩

/-- Whatever is said is dropped. -/
theorem receive (h : t.machine.Dormant) (message : Message) : receive message t = t := by
  have hnowhere : ∀ ssrc, ssrc ∉ t.machine.places.placed := by simp [h.placed_eq_nil]
  have hvacant := h.vacant
  cases message with
  | request wish =>
    simp only [Arbitrator.receive, receiveRequest]
    split
    · rfl
    · split
      · next hstate => exact absurd hstate h.unasked
      · next hstate => simp [hstate, ArbitratorState.occupied] at hvacant
      · next hstate => simp [hstate, ArbitratorState.occupied] at hvacant
      all_goals rfl
  | release ssrc => simp [Arbitrator.receive, receiveRelease, occupied, h.vacant, h.unasked]
  | queuePositionRequest ssrc => exact receiveQueuePositionRequest_of_not_placed (hnowhere ssrc)
  | ack ssrc acked =>
    simp only [Arbitrator.receive, Turn.update, receiveAck_of_not_placed acked (hnowhere ssrc)]
  | granted | denied | idle | taken | revoke | queuePositionInfo => rfl

/-- Whatever ticket comes due is refused. -/
theorem expire (h : t.machine.Dormant) (ticket : Ticket) : expire ticket t = t :=
  expire_of_refused fun timer htimer => by simp [Timer.accepts, h.stopped timer htimer]

end Dormant

/-- What those in places are told when the call is taken down: talkers have to stop, and those that
wait do so in vain. -/
def Places.farewells (p : Places) : List Envelope :=
  p.talkers.map (fun ssrc => letterTo ssrc (.revoke ssrc .callReleased p.config.ackRequired)) ++
    p.awaiting.map fun ssrc => letterTo ssrc (.denied ssrc .callReleased p.config.ackRequired)

/-- Everybody who is in the roster gets a letter. -/
private theorem flatMap_lettersTo {roster : Roster Proxy} {ssrcs : List Ssrc}
    (hknown : ∀ ssrc ∈ ssrcs, roster.contains ssrc = true) (message : Ssrc → Message) :
    (ssrcs.flatMap fun ssrc => lettersTo roster ssrc (message ssrc)) =
      ssrcs.map fun ssrc => letterTo ssrc (message ssrc) := by
  induction ssrcs with
  | nil => rfl
  | cons ssrc rest ih =>
    obtain ⟨hfirst, hrest⟩ := List.forall_mem_cons.mp hknown
    rw [List.flatMap_cons, ih hrest, List.map_cons, lettersTo, if_pos hfirst]
    rfl

/-- Everybody who is in a place gets its farewell, and nobody else. -/
theorem farewells_beginRelease (hsound : t.machine.places.Sound) (hout : t.out.messages = []) :
    (beginRelease t).out.messages = t.machine.places.farewells := by
  have hknown : ∀ ssrc ∈ t.machine.places.placed, t.machine.places.roster.contains ssrc = true :=
    fun ssrc hplaced => (hsound.entitled ssrc hplaced).contains
  have htalkers := flatMap_lettersTo
    (fun ssrc hmem => hknown ssrc (Places.talkers_subset_placed hmem))
    fun ssrc => .revoke ssrc .callReleased t.machine.places.config.ackRequired
  have hawaiting := flatMap_lettersTo
    (fun ssrc hmem => hknown ssrc (Places.mem_placed.mpr (.inr hmem)))
    fun ssrc => .denied ssrc .callReleased t.machine.places.config.ackRequired
  rw [messages_beginRelease hout, Places.farewells, ← htalkers, ← hawaiting, Places.talkers,
    List.flatMap_map]
  rfl

theorem dormant_beginRelease (hsteps : t.machine.gears.InStep) :
    (beginRelease t).machine.Dormant := by
  have hstate : (beginRelease t).machine.state = .releasing :=
    congrArg Places.state (places_beginRelease (t := t))
  exact {
    sound := places_beginRelease (t := t) ▸ sound_emptied _
    inStep := Takes.begun.inStep hsteps
    unasked := by simp [hstate]
    vacant := by rw [hstate]; rfl }

/-- All that is told of an arbitrator that takes the call down is its change of state. -/
private theorem upheld_moves : Upheld fun t => ∀ event ∈ t.out.events, event.isMove = true where
  update _ _ h := h
  post _ _ h := h
  moved before after h := by
    intro event hevent
    rcases List.mem_append.mp hevent with hevent | hevent
    · exact h event hevent
    · rw [List.mem_singleton.mp hevent]
      rfl
  arm _ h := h

/-- When the call is down nobody is in the roster, and nothing is left to be stopped. -/
theorem finishRelease_of_releasing (hstate : t.machine.state = .releasing) :
    finishRelease t =
      (t.update fun a => { a with state := .startStop, roster := .empty }).tell
        (.arbitratorMoved t.machine.callId t.machine.config.ssrc .releasing .startStop) := by
  simp [finishRelease, moveTo, hstate, Turn.update, stopStateTimers, startStateTimers, Turn.tell]

end Arbitrator

namespace Participant

variable {t : Turn Participant}

structure Stopped (p : Participant) : Prop where
  state : p.state = .startStop
  timers : ∀ timer ∈ p.timers, timer.running = false

theorem stopped_beginRelease (t : Turn Participant) : (beginRelease t).machine.Stopped := by
  constructor
  · simp [beginRelease]
  · simp [beginRelease, timers, stopTimers]

theorem Stopped.receive (h : t.machine.Stopped) (message : Message) : receive message t = t := by
  simp only [Participant.receive, h.state]

theorem Stopped.expire (h : t.machine.Stopped) (ticket : Ticket) : expire ticket t = t :=
  expire_of_refused fun timer htimer => by simp [Timer.accepts, h.timers timer htimer]

private theorem moves_beginRelease (h : ∀ event ∈ t.out.events, event.isMove = true) :
    ∀ event ∈ (beginRelease t).out.events, event.isMove = true := by
  intro event hevent
  simp only [beginRelease, moveTo] at hevent
  split at hevent
  · exact h event hevent
  · rcases List.mem_append.mp hevent with hevent | hevent
    · exact h event hevent
    · rw [List.mem_singleton.mp hevent]
      rfl

end Participant

namespace Session

variable {config : SessionConfig} {h : History} {r : Run}

/-- A call in which nobody heeds anything. -/
structure Spent (s : Session) : Prop where
  arbitrator : s.arbitrator.Dormant
  participants : ∀ x p, s.participants.get? x = some p → p.Stopped

/-- Whatever arrives is without effect. -/
theorem deliver_of_spent (hspent : r.state.Spent) (event : SessionEvent) : deliver event r = r := by
  have harbitrator {f : Turn Arbitrator → Turn Arbitrator}
      (hf : f ⟨r.state.arbitrator, {}⟩ = ⟨r.state.arbitrator, {}⟩) : onArbitrator f r = r := by
    simp only [onArbitrator, hf]
    rfl
  have hparty (x : Ssrc) {f : Turn Participant → Turn Participant}
      (hf : ∀ p : Participant, p.Stopped → f ⟨p, {}⟩ = ⟨p, {}⟩) : onParticipant x f r = r := by
    simp only [onParticipant]
    split
    · rfl
    · next p hget =>
      simp only [hf p (hspent.participants x p hget), setParticipant, Roster.modify_of_get? hget]
      rfl
  cases event with
  | expiry ticket =>
    simp only [deliver]
    split
    · exact harbitrator (hspent.arbitrator.expire ticket)
    · next x _ => exact hparty x fun p hp => hp.expire ticket
  | toArbitrator message => exact harbitrator (hspent.arbitrator.receive message)
  | toParticipant x message => exact hparty x fun p hp => hp.receive message

def withScheduler (scheduler : Scheduler SessionEvent) (r : Run) : Run :=
  { r with state := { r.state with scheduler := scheduler } }

theorem deliverNext?_of_spent {t : Nat} {event : SessionEvent} {scheduler : Scheduler SessionEvent}
    (hspent : r.state.Spent) (hpop : r.state.scheduler.popDue t = some (event, scheduler)) :
    deliverNext? t r = some (withScheduler scheduler r) := by
  have hspent' : (withScheduler scheduler r).state.Spent :=
    ⟨hspent.arbitrator, hspent.participants⟩
  rw [deliverNext?, hpop]
  exact congrArg some (deliver_of_spent hspent' event)

/-- Moving the clock comes to an end, and all that it does is to take out of the scheduler what is
due. -/
theorem exists_advances_of_spent (hspent : r.state.Spent) (t : Nat) :
    ∃ rest, Advances t r
      (withScheduler { r.state.scheduler with now := max r.state.now t, pending := rest } r) := by
  induction hpending : r.state.scheduler.pending generalizing r with
  | nil => exact ⟨_, .settled (by simp [deliverNext?, Scheduler.popDue, hpending])⟩
  | cons x rest ih =>
    cases hpop : r.state.scheduler.popDue t with
    | none => exact ⟨_, .settled (by simp [deliverNext?, hpop])⟩
    | some next =>
      obtain ⟨event, scheduler⟩ := next
      obtain ⟨y, later, hcons, hdue, -, rfl⟩ := Scheduler.popDue_eq_some hpop
      rw [hpending, List.cons.injEq] at hcons
      obtain ⟨rfl, rfl⟩ := hcons
      obtain ⟨left, hadvances⟩ := ih
        (r := withScheduler { r.state.scheduler with
          now := max r.state.scheduler.now x.due, pending := rest } r)
        ⟨hspent.arbitrator, hspent.participants⟩ rfl
      refine ⟨left, .delivered (deliverNext?_of_spent hspent hpop) ?_⟩
      have hclock : max (max r.state.scheduler.now x.due) t = max r.state.scheduler.now t := by
        omega
      simpa only [withScheduler, now, hclock] using hadvances

/-- After the first half nobody heeds anything. -/
theorem spent_beginRelease (hsteps : r.state.arbitrator.gears.InStep) :
    (beginRelease r).state.Spent := by
  simp only [beginRelease, state_dispatch]
  refine ⟨Arbitrator.dormant_beginRelease (t := ⟨r.state.arbitrator, {}⟩) hsteps, ?_⟩
  intro x p hget
  have hdistinct : r.state.participants.ssrcs.Nodup :=
    r.state.participants.ascending.imp UInt32.ne_of_lt
  simp only [get?_releaseEach _ hdistinct] at hget
  split at hget
  · obtain ⟨q, -, rfl⟩ := Option.map_eq_some_iff.mp hget
    exact Participant.stopped_beginRelease _
  · next habsent =>
    rw [← Roster.contains_iff_mem] at habsent
    exact absurd (Roster.contains_of_get? hget) habsent

/-- The scheduler has no part in the second half. -/
theorem finishRelease_of_releasing (hstate : r.state.arbitrator.state = .releasing) :
    finishRelease r =
      ⟨{ r.state with
          arbitrator := { r.state.arbitrator with state := .startStop, roster := .empty }
          participants := r.state.participants.mapWith fun _ p => p.finishRelease
          scheduler := r.state.scheduler.clear
          active := false },
        ⟨r.state.now, .callReleased r.state.callId⟩ ::
          ⟨r.state.now, .arbitratorMoved r.state.arbitrator.callId r.state.arbitrator.config.ssrc
            .releasing .startStop⟩ :: r.log⟩ := by
  simp only [finishRelease,
    Arbitrator.finishRelease_of_releasing (t := ⟨r.state.arbitrator, {}⟩) hstate]
  rfl

theorem now_beginRelease (r : Run) : (beginRelease r).state.now = r.state.now := by
  simp only [beginRelease, state_dispatch]
  exact Scheduler.now_scheduleEach _ _

theorem callId_beginRelease (r : Run) : (beginRelease r).state.callId = r.state.callId := by
  simp only [beginRelease, state_dispatch]

theorem releasing_beginRelease (r : Run) :
    (beginRelease r).state.arbitrator.state = .releasing := by
  simp only [beginRelease, state_dispatch]
  exact congrArg Arbitrator.Places.state Arbitrator.places_beginRelease

/-- What is due between the halves arrives, all of it, and makes no difference. -/
theorem exists_drained (hsteps : r.state.arbitrator.gears.InStep)
    (hactive : r.state.active = true) :
    ∃ scheduler, Advances r.state.now (beginRelease r) (withScheduler scheduler (beginRelease r)) ∧
      release r = finishRelease (withScheduler scheduler (beginRelease r)) ∧
      release r = finishRelease (beginRelease r) := by
  obtain ⟨rest, hadvances⟩ := exists_advances_of_spent (spent_beginRelease hsteps) r.state.now
  set scheduler : Scheduler SessionEvent :=
    { (beginRelease r).state.scheduler with
      now := max (beginRelease r).state.now r.state.now, pending := rest } with hscheduler
  have hnow : scheduler.now = (beginRelease r).state.now := by
    simp [hscheduler, now_beginRelease]
  have hsame : finishRelease (withScheduler scheduler (beginRelease r)) =
      finishRelease (beginRelease r) := by
    have hstate := releasing_beginRelease r
    rw [finishRelease_of_releasing hstate, finishRelease_of_releasing (by exact hstate)]
    simp only [withScheduler, now, Scheduler.clear, hscheduler] at hnow ⊢
    rw [hnow]
  have hrelease : release r = finishRelease (beginRelease r) := by
    simp only [release, hactive, Bool.not_true, Bool.false_eq_true, if_false, runUntilIdle,
      advanceTo, now_beginRelease]
    cases hends : advance? stepLimit r.state.now (beginRelease r) with
    | none => rfl
    | some last =>
      rw [(Advances.of_advance? hends).unique hadvances, Option.getD_some]
      exact hsame
  exact ⟨scheduler, hadvances, hrelease.trans hsame.symm, hrelease⟩

private theorem moves_releaseEach (ssrcs : List Ssrc) (participants : Roster Participant)
    {out : Outbox} (hout : ∀ event ∈ out.events, event.isMove = true) :
    ∀ event ∈ (releaseEach ssrcs participants out).2.events, event.isMove = true := by
  induction ssrcs generalizing participants out with
  | nil => exact hout
  | cons first rest ih =>
    simp only [releaseEach]
    split
    · exact ih _ hout
    · next p _ => exact ih _ (Participant.moves_beginRelease (t := ⟨p, out⟩) hout)

/-- What the observers are told when a call is taken down, besides changes of state. -/
def farewells (s : Session) : List FloorEvent :=
  s.arbitrator.places.farewells.map fun e => .messageSent s.callId e.sender e.receiver e.message

theorem exists_moves_beginRelease (hsound : r.state.arbitrator.places.Sound)
    (hactive : r.state.active = true) :
    ∃ moves : List FloorEvent, (∀ event ∈ moves, event.isMove = true) ∧
      (beginRelease r).trace =
        r.trace ++ (r.state.farewells ++ moves).map (⟨r.state.now, ·⟩) := by
  obtain ⟨hmessages, -⟩ := quiet_releaseEach r.state.participants.ssrcs r.state.participants
    (Arbitrator.beginRelease ⟨r.state.arbitrator, {}⟩).out
  rw [Arbitrator.farewells_beginRelease (t := ⟨r.state.arbitrator, {}⟩) hsound rfl] at hmessages
  refine ⟨_, moves_releaseEach r.state.participants.ssrcs r.state.participants
    (Arbitrator.upheld_moves.beginRelease (t := ⟨r.state.arbitrator, {}⟩) (by simp)), ?_⟩
  have hlog := (follows_beginRelease hactive).log
  simp only [Operation.outboxes, hactive, if_true, Machines.releaseOutboxes, machines, logged,
    List.flatMap_singleton, telling, hmessages] at hlog
  simp only [Observed.trace, hlog, farewells, List.reverse_append, List.reverse_reverse,
    List.map_append, List.map_map, Function.comp_def]

/-- Last it is told that the call was released. -/
theorem exists_moved_finishRelease (hstate : r.state.arbitrator.state = .releasing) :
    ∃ moved : FloorEvent, moved.isMove = true ∧ (finishRelease r).trace =
      r.trace ++ [moved, .callReleased r.state.callId].map (⟨r.state.now, ·⟩) := by
  rw [finishRelease_of_releasing hstate]
  exact ⟨.arbitratorMoved r.state.arbitrator.callId r.state.arbitrator.config.ssrc .releasing
    .startStop, rfl, by simp [Observed.trace]⟩

/-- A call that is down: nobody is left with the arbitrator, every party was released, nothing is
timed and nothing waits. -/
structure Over (s : Session) : Prop where
  inactive : s.active = false
  pending : s.scheduler.pending = []
  state : s.arbitrator.state = .startStop
  roster : s.arbitrator.roster = .empty
  queue : s.arbitrator.queue.entries = []
  holder : s.arbitrator.holder = none
  second : s.arbitrator.dual.talker = none
  preemptor : s.arbitrator.preemptor = none
  implicitRequest : s.arbitrator.implicitRequest = none
  timers : ∀ timer ∈ s.arbitrator.timers, timer.running = false
  participants : ∀ x p, s.participants.get? x = some p →
    p.state = .startStop ∧ p.released = true ∧ ∀ timer ∈ p.timers, timer.running = false

theorem over_finishRelease (hspent : r.state.Spent)
    (hstate : r.state.arbitrator.state = .releasing) : (finishRelease r).state.Over := by
  rw [finishRelease_of_releasing hstate]
  have horderly := hspent.arbitrator.sound.toOrderly
  have hvacant : r.state.arbitrator.places.state.occupied = false := hspent.arbitrator.vacant
  exact {
    inactive := rfl
    pending := rfl
    state := rfl
    roster := rfl
    queue := FloorQueue.waiting_eq_nil.mp (horderly.waiting_eq_nil hvacant)
    holder := horderly.holder_eq_none hvacant
    second := horderly.second_eq_none hvacant
    preemptor := horderly.preemptor_eq_none (ne_of_eq_of_ne hstate (by decide))
    implicitRequest := horderly.implicit_eq_none (ne_of_eq_of_ne hstate (by decide))
    timers := hspent.arbitrator.stopped
    participants := fun x p hget => by
      rw [Roster.get?_mapWith, Option.map_eq_some_iff] at hget
      obtain ⟨q, hq, rfl⟩ := hget
      have hstopped := hspent.participants x q hq
      exact ⟨hstopped.state, rfl, hstopped.timers⟩ }

def Operation.party? : Operation → Option Ssrc
  | .join x _ _ | .setUp x | .establish x _ | .push x | .releaseTalk x | .accept x
  | .askPosition x | .setDual x _ | .setIndicator x _ | .leave x => some x
  | .setUpAll | .release | .runUntilIdle | .advanceTo _ | .advanceBy _ => none

/-- The call after some operations, whatever the answers. -/
def performAll (ops : List Operation) (r : Run) : Run :=
  ops.foldl (fun r op => (perform op r).2) r

theorem settle_now (r : Run) : settle r.state.now r = r := by
  simp only [settle, Scheduler.settle, now, Nat.max_self]

/-- All that can be done with a call that is down is to move its clock. -/
theorem exists_settle_perform (hinactive : r.state.active = false)
    (hpending : r.state.scheduler.pending = []) (op : Operation) :
    ∃ t, (perform op r).2 = settle t r := by
  cases htarget : op.target? r.state with
  | none =>
    refine ⟨r.state.now, ?_⟩
    rw [perform_of_over op ⟨htarget, fun _ => hinactive⟩ hinactive, settle_now]
  | some t =>
    have hends : advance? 1 t r = some (settle t r) := by
      simp [advance?, deliverNext?, Scheduler.popDue, hpending]
    refine ⟨t, perform_eq_of_perform? ?_⟩
    simp only [perform?, htarget]
    exact advance?_mono hends Nat.one_le_two_pow

theorem exists_settle_performAll (hinactive : r.state.active = false)
    (hpending : r.state.scheduler.pending = []) (ops : List Operation) :
    ∃ t, performAll ops r = settle t r := by
  induction ops generalizing r with
  | nil => exact ⟨r.state.now, (settle_now r).symm⟩
  | cons op ops ih =>
    obtain ⟨t, ht⟩ := exists_settle_perform hinactive hpending op
    obtain ⟨u, hu⟩ := ih (r := settle t r) hinactive hpending
    refine ⟨max t u, ?_⟩
    rw [performAll, List.foldl_cons, ht, ← settle_settle]
    exact hu

/-- Every operation that is about a party is refused, because the call is down. -/
theorem perform_party (hinactive : r.state.active = false) {op : Operation} {x : Ssrc}
    (hparty : op.party? = some x) :
    perform op r = (.error (.callNotActive r.state.callId), r) := by
  have hrefusal : op.refusal? r.state = some (.callNotActive r.state.callId) := by
    cases op <;>
      simp [Operation.party?, Operation.refusal?, refusalFor?, hinactive] at hparty ⊢
  have hsettles := settles_perform op (r := r) fun hactive => by simp [hinactive] at hactive
  rwa [hrefusal] at hsettles

/-- Taking down a call that is up comes to an end, and what is still due meanwhile has no part in
what comes of it. The talkers are told to stop, those that wait are turned down, and besides that
only changes of state are told before it is told, last and once, that the call was released. Nothing
is left of the call. Whatever is done with it afterwards, nothing more is told, no machine changes,
no media pass, and every operation that is about a party is refused. -/
theorem release_leaves_nothing (hr : Reached config .resting h r)
    (hactive : r.state.active = true) :
    (∃ scheduler, Advances r.state.now (beginRelease r) (withScheduler scheduler (beginRelease r)) ∧
        release r = finishRelease (withScheduler scheduler (beginRelease r)) ∧
        release r = finishRelease (beginRelease r)) ∧
      (∃ moves : List FloorEvent, (∀ event ∈ moves, event.isMove = true) ∧
        (release r).trace = r.trace ++ (r.state.farewells ++ moves ++
          [FloorEvent.callReleased r.state.callId]).map (⟨r.state.now, ·⟩)) ∧
      (release r).state.Over ∧
      ∀ ops, (performAll ops (release r)).trace = (release r).trace ∧
        (performAll ops (release r)).state.machines = (release r).state.machines ∧
        (∀ frame, (performAll ops (release r)).state.relaysMedia frame = false) ∧
        (∀ x frame, (performAll ops (release r)).state.stampMedia x frame =
          .error (.callNotActive r.state.callId)) ∧
        ∀ op x, op.party? = some x → perform op (performAll ops (release r)) =
          (.error (.callNotActive r.state.callId), performAll ops (release r)) := by
  have hsteps := hr.stage.inStep
  obtain ⟨scheduler, hadvances, hdrained, hrelease⟩ := exists_drained hsteps hactive
  have hstate := releasing_beginRelease r
  have hspent := spent_beginRelease hsteps
  have hover : (release r).state.Over := hrelease ▸ over_finishRelease hspent hstate
  have hcall : (release r).state.callId = r.state.callId := by
    rw [hrelease, finishRelease_of_releasing hstate]
    exact callId_beginRelease r
  refine ⟨⟨scheduler, hadvances, hdrained, hrelease⟩, ?_, hover, fun ops => ?_⟩
  · obtain ⟨moves, hmoves, htrace⟩ := exists_moves_beginRelease hr.stage.sound hactive
    obtain ⟨moved, hmoved, hlast⟩ := exists_moved_finishRelease hstate
    refine ⟨moves ++ [moved], List.forall_mem_append.mpr ⟨hmoves, by simpa using hmoved⟩, ?_⟩
    rw [hrelease, hlast, htrace, now_beginRelease, callId_beginRelease]
    simp
  · obtain ⟨t, ht⟩ := exists_settle_performAll hover.inactive hover.pending ops
    have hinactive : (settle t (release r)).state.active = false := hover.inactive
    rw [ht]
    refine ⟨rfl, rfl, fun frame => ?_, fun x frame => ?_, fun op x hparty => ?_⟩
    · simp [relaysMedia, hinactive]
    · simp only [stampMedia, hinactive, Bool.not_false, if_true]
      exact congrArg (Except.error <| FloorError.callNotActive ·) hcall
    · have hrefused := perform_party hinactive hparty
      rwa [show (settle t (release r)).state.callId = r.state.callId from hcall] at hrefused

def underway : List Operation :=
  [.join 1 5 true, .join 2 5 false, .setUpAll, .runUntilIdle, .push 1, .runUntilIdle, .push 2]

/-- The talker is told to stop, and the request finds nobody who answers it. -/
theorem release_leaves_nothing_underway :
    ∃ h r, play? underway ⟨Session.create 1 .basic {} 0, []⟩ = some r ∧
      Reached {} .resting h r ∧ r.state.active = true ∧
      r.state.scheduler.pending.any (fun x => x.due = r.state.now ∧
        x.event = .toArbitrator (.request ⟨2, 5, .normal, false, true⟩)) = true ∧
      r.state.farewells =
        [.messageSent 1 .arbitrator (.participant 1) (.revoke 1 .callReleased false)] ∧
      (release r).state.Over ∧
      (performAll [.push 1, .advanceBy 60000] (release r)).trace = (release r).trace := by
  have hplayed : (play? underway ⟨Session.create 1 .basic {} 0, []⟩).any (fun r =>
      r.state.active && r.state.scheduler.pending.any (fun x => x.due = r.state.now ∧
          x.event = .toArbitrator (.request ⟨2, 5, .normal, false, true⟩)) &&
        decide (r.state.farewells =
          [.messageSent 1 .arbitrator (.participant 1) (.revoke 1 .callReleased false)])) = true := by
    decide +kernel
  obtain ⟨h, r, hr, hreached, hcheck⟩ := exists_reached_of_play? hplayed
  rw [Bool.and_eq_true, Bool.and_eq_true, decide_eq_true_eq] at hcheck
  obtain ⟨⟨hactive, hdue⟩, hfarewells⟩ := hcheck
  obtain ⟨-, -, hover, hafterwards⟩ := release_leaves_nothing hreached hactive
  exact ⟨h, r, hr, hreached, hactive, hdue, hfarewells, hover, (hafterwards _).1⟩

end Session
end FloorControl
