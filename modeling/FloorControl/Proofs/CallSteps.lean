import FloorControl.Proofs.ArbitratorTimers
import FloorControl.Proofs.CallMoves
import FloorControl.Proofs.ParticipantTimers
import FloorControl.Proofs.Scheduling

/-!
# The steps of a call

Everything that happens to a call, whoever comes, leaves or comes back, is told in one way: its
machines take turns, each turn fills an outbox, and what is in the outboxes goes into the
scheduler. This module says which outboxes a happening fills and what the observers are told of
them, and that a call can be reached exactly by such steps, so that an invariant needs to look at
the turns of the machines and at the scheduler only.
-/

namespace FloorControl

namespace Arbitrator

/-- What the arbitrator can do in a turn, tickets apart. -/
inductive Takes (t : Turn Arbitrator) : Turn Arbitrator → Prop where
  | initialized {ssrc : Ssrc} {u : Turn Arbitrator} : callInitialized ssrc t = .ok u → Takes t u
  | implicitRequest {ssrc : Ssrc} {u : Turn Arbitrator} :
      implicitFloorRequest ssrc t = .ok u → Takes t u
  | left {ssrc : Ssrc} {u : Turn Arbitrator} : clientRelease ssrc t = .ok u → Takes t u
  | received (message : Message) : Takes t (receive message t)
  | begun : Takes t (beginRelease t)
  | finished : Takes t (finishRelease t)

/-- What the arbitrator can be asked to do for a party that stays. -/
inductive Admits (t : Turn Arbitrator) : Turn Arbitrator → Prop where
  | initialized {ssrc : Ssrc} {u : Turn Arbitrator} : callInitialized ssrc t = .ok u → Admits t u
  | implicitRequest {ssrc : Ssrc} {u : Turn Arbitrator} :
      implicitFloorRequest ssrc t = .ok u → Admits t u

theorem Admits.takes {t u : Turn Arbitrator} (h : Admits t u) : Takes t u := by
  cases h with
  | initialized h => exact .initialized h
  | implicitRequest h => exact .implicitRequest h

theorem Takes.acts {t u : Turn Arbitrator} (h : Takes t u) :
    Winding.Acts (winding t) (winding u) := by
  cases h with
  | initialized h => exact acts_callInitialized h
  | implicitRequest h => exact acts_implicitFloorRequest h
  | left h => exact acts_clientRelease h
  | received message => exact acts_receive message t
  | begun => exact acts_beginRelease t
  | finished => exact Winding.Acts.of_eq (winding_finishRelease t).symm

/-- Whatever the arbitrator does, its places stay sound. -/
theorem Takes.sound {t u : Turn Arbitrator} (h : Takes t u) (hsound : t.machine.places.Sound)
    (hout : t.out.messages = []) : u.machine.places.Sound := by
  cases h with
  | initialized h => exact (leads_callInitialized (fun _ => False) hsound hout h).2.sound
  | implicitRequest h => exact sound_implicitFloorRequest hsound hout h
  | left h => exact (leads_clientRelease (fun _ => False) hsound hout h).2.sound
  | received message => exact (leads_receive message hsound hout).sound
  | begun =>
    rw [places_beginRelease]
    exact sound_emptied _
  | finished => exact sound_finishRelease hsound

end Arbitrator

namespace Session

structure Machines where
  arbitrator : Arbitrator
  participants : Roster Participant

def machines (s : Session) : Machines := ⟨s.arbitrator, s.participants⟩

def Machines.turnOutboxes (ssrc : Ssrc) (input : Participant.Input) (m : Machines) : List Outbox :=
  match m.participants.get? ssrc with
  | none => []
  | some p => [(p.handle input).out]

/-- The outboxes of setting the call up at some parties, up to the first that is refused. -/
def Machines.setUpOutboxes : List Ssrc → Machines → List Outbox
  | [], _ => []
  | ssrc :: rest, m =>
    match m.participants.get? ssrc with
    | none => []
    | some p =>
      let t := Participant.callInitialized ⟨p, {}⟩
      match Arbitrator.callInitialized ssrc ⟨m.arbitrator, t.out⟩ with
      | .error _ => []
      | .ok u =>
        u.out :: setUpOutboxes rest ⟨u.machine, m.participants.modify ssrc fun _ => t.machine⟩

def Machines.establishOutboxes (ssrc : Ssrc) (granted : Bool) (m : Machines) : List Outbox :=
  match m.participants.get? ssrc with
  | none => []
  | some p =>
    let t := Participant.callEstablished granted p.priority ⟨p, {}⟩
    if granted then
      match Arbitrator.implicitFloorRequest ssrc ⟨m.arbitrator, t.out⟩ with
      | .error _ => []
      | .ok u => [u.out]
    else [t.out]

def Machines.leaveOutboxes (ssrc : Ssrc) (m : Machines) : List Outbox :=
  match Arbitrator.clientRelease ssrc ⟨m.arbitrator, {}⟩ with
  | .error _ => []
  | .ok t =>
    match m.participants.get? ssrc with
    | none => [t.out]
    | some p => [(Participant.beginRelease ⟨p, t.out⟩).out]

def Machines.releaseOutboxes (m : Machines) : List Outbox :=
  [(releaseEach m.participants.ssrcs m.participants
    (Arbitrator.beginRelease ⟨m.arbitrator, {}⟩).out).2]

/-- The outboxes that an operation fills by itself, before anything is handed over. -/
def Operation.outboxes (s : Session) (op : Operation) : List Outbox :=
  if s.active then
    match op with
    | .setUp ssrc => s.machines.setUpOutboxes [ssrc]
    | .setUpAll => s.machines.setUpOutboxes s.participants.ssrcs
    | .establish ssrc granted => s.machines.establishOutboxes ssrc granted
    | .push ssrc => s.machines.turnOutboxes ssrc .push
    | .releaseTalk ssrc => s.machines.turnOutboxes ssrc .release
    | .accept ssrc => s.machines.turnOutboxes ssrc .accept
    | .askPosition ssrc => s.machines.turnOutboxes ssrc .askPosition
    | .setDual ssrc on => s.machines.turnOutboxes ssrc (.setDual on)
    | .setIndicator ssrc wanted => s.machines.turnOutboxes ssrc (.setIndicator wanted)
    | .leave ssrc => s.machines.leaveOutboxes ssrc
    | .release => s.machines.releaseOutboxes
    | .join .. | .runUntilIdle | .advanceTo _ | .advanceBy _ => []
  else []

/-- The outbox that is filled when an event is handed over. Nobody answers for a party that has
left. -/
def Machines.eventOutboxes (event : SessionEvent) (m : Machines) : List Outbox :=
  match event with
  | .expiry ticket =>
    match ticket.owner with
    | .arbitrator => [(Arbitrator.expire ticket ⟨m.arbitrator, {}⟩).out]
    | .participant ssrc => m.turnOutboxes ssrc (.expire ticket)
  | .toArbitrator message => [(Arbitrator.receive message ⟨m.arbitrator, {}⟩).out]
  | .toParticipant ssrc message => m.turnOutboxes ssrc (.receive message)

def Happening.outboxes (e : Happening) : List Outbox :=
  match e.what with
  | .operation op => op.outboxes e.before
  | .delivery event => e.before.machines.eventOutboxes event

/-- The time at which something happens: the clock has moved on to an event when it is handed
over. -/
def Happening.time (e : Happening) : Nat :=
  match e.what with
  | .operation _ => e.before.now
  | .delivery _ => e.before.scheduler.nextTime

def Happening.entered? (e : Happening) : Option Ssrc :=
  match e.what with
  | .operation (.join ssrc _ _) =>
    if e.before.active && !e.before.arbitrator.roster.contains ssrc then some ssrc else none
  | _ => none

/-- What an operation asks of a party that stays. -/
inductive Operation.Prompts : Operation → Ssrc → Participant.Input → Prop where
  | setUp (ssrc : Ssrc) : Prompts (.setUp ssrc) ssrc .initialized
  | setUpAll (ssrc : Ssrc) : Prompts .setUpAll ssrc .initialized
  | establish (ssrc : Ssrc) (granted : Bool) (priority : Priority) :
      Prompts (.establish ssrc granted) ssrc (.established granted priority)
  | push (ssrc : Ssrc) : Prompts (.push ssrc) ssrc .push
  | releaseTalk (ssrc : Ssrc) : Prompts (.releaseTalk ssrc) ssrc .release
  | accept (ssrc : Ssrc) : Prompts (.accept ssrc) ssrc .accept
  | askPosition (ssrc : Ssrc) : Prompts (.askPosition ssrc) ssrc .askPosition
  | setDual (ssrc : Ssrc) (on : Bool) : Prompts (.setDual ssrc on) ssrc (.setDual on)
  | setIndicator (ssrc : Ssrc) (wanted : Option Indicator) :
      Prompts (.setIndicator ssrc wanted) ssrc (.setIndicator wanted)

theorem Operation.Prompts.ne_expire {op : Operation} {ssrc : Ssrc} {input : Participant.Input}
    (h : op.Prompts ssrc input) (ticket : Ticket) : input ≠ .expire ticket := by
  cases h <;> simp

/-- As part of an operation some machines take a turn, in which at most one outbox is filled. -/
inductive Part (op : Operation) (m : Machines) : List Outbox → Machines → Prop where
  | arbitrator {t u : Turn Arbitrator} : t.machine = m.arbitrator → t.out.messages = [] →
      t.out.timers = [] → Arbitrator.Admits t u →
      Part op m [u.out] { m with arbitrator := u.machine }
  | participant {ssrc : Ssrc} {p : Participant} {input : Participant.Input} :
      m.participants.get? ssrc = some p → op.Prompts ssrc input →
      Part op m [(p.handle input).out]
        { m with participants := m.participants.modify ssrc fun _ => (p.handle input).machine }
  /-- The participant changes without wanting anything done. -/
  | quiet {ssrc : Ssrc} {p : Participant} {input : Participant.Input} :
      m.participants.get? ssrc = some p → op.Prompts ssrc input →
      (p.handle input).out.messages = [] → (p.handle input).out.timers = [] →
      Part op m []
        { m with participants := m.participants.modify ssrc fun _ => (p.handle input).machine }
  /-- A party leaves, and the arbitrator fills the place that it may have had. -/
  | left {ssrc : Ssrc} {u : Turn Arbitrator} {out : Outbox} : op = .leave ssrc →
      Arbitrator.clientRelease ssrc ⟨m.arbitrator, {}⟩ = .ok u → out.messages = u.out.messages →
      out.timers = u.out.timers → Part op m [out] ⟨u.machine, m.participants.erase ssrc⟩
  /-- All participants are stopped, and the arbitrator begins to take the call down. -/
  | closed {out : Outbox} {participants : Roster Participant} : op = .release →
      (∀ ssrc, participants.get? ssrc =
        (m.participants.get? ssrc).map fun p => (p.handle .beginRelease).machine) →
      out.messages = (Arbitrator.beginRelease ⟨m.arbitrator, {}⟩).out.messages →
      out.timers = (Arbitrator.beginRelease ⟨m.arbitrator, {}⟩).out.timers →
      Part op m [out] ⟨(Arbitrator.beginRelease ⟨m.arbitrator, {}⟩).machine, participants⟩

inductive Parts (op : Operation) : Machines → List Outbox → Machines → Prop where
  | none (m : Machines) : Parts op m [] m
  | next {m m' m'' : Machines} {outs outs' : List Outbox} : Part op m outs m' →
      Parts op m' outs' m'' → Parts op m (outs ++ outs') m''

theorem Part.alone {op : Operation} {m m' : Machines} {outs : List Outbox}
    (h : Part op m outs m') : Parts op m outs m' := by
  simpa using Parts.next h (.none m')

theorem Parts.append {op : Operation} {m m' m'' : Machines} {outs outs' : List Outbox}
    (h : Parts op m outs m') (h' : Parts op m' outs' m'') : Parts op m (outs ++ outs') m'' := by
  induction h with
  | none => exact h'
  | next hpart _ ih =>
    rw [List.append_assoc]
    exact .next hpart (ih h')

/-- Whatever every turn of an operation keeps is kept by all of them together. -/
theorem Parts.keeps {op : Operation} {P : Machines → Prop}
    (hpart : ∀ m outs m', Part op m outs m' → P m → P m') {m m' : Machines}
    {outs : List Outbox} (hparts : Parts op m outs m') (h : P m) : P m' := by
  induction hparts with
  | none => exact h
  | next hfirst _ ih => exact ih (hpart _ _ _ hfirst h)

inductive Delivers (m : Machines) : SessionEvent → List Outbox → Machines → Prop where
  | arbitratorTicket {ticket : Ticket} : ticket.owner = .arbitrator →
      Delivers m (.expiry ticket) [(Arbitrator.expire ticket ⟨m.arbitrator, {}⟩).out]
        { m with arbitrator := (Arbitrator.expire ticket ⟨m.arbitrator, {}⟩).machine }
  | participantTicket {ticket : Ticket} {ssrc : Ssrc} {p : Participant} :
      ticket.owner = .participant ssrc → m.participants.get? ssrc = some p →
      Delivers m (.expiry ticket) [(Participant.expire ticket ⟨p, {}⟩).out]
        { m with participants := m.participants.modify ssrc fun _ =>
            (Participant.expire ticket ⟨p, {}⟩).machine }
  | arbitratorLetter (message : Message) :
      Delivers m (.toArbitrator message) [(Arbitrator.receive message ⟨m.arbitrator, {}⟩).out]
        { m with arbitrator := (Arbitrator.receive message ⟨m.arbitrator, {}⟩).machine }
  | participantLetter {ssrc : Ssrc} {p : Participant} (message : Message) :
      m.participants.get? ssrc = some p →
      Delivers m (.toParticipant ssrc message) [(Participant.receive message ⟨p, {}⟩).out]
        { m with participants := m.participants.modify ssrc fun _ =>
            (Participant.receive message ⟨p, {}⟩).machine }
  /-- What was meant for a party that has left is dropped. -/
  | dropped {event : SessionEvent} {ssrc : Ssrc} {input : Participant.Input} :
      event.input? ssrc = some input → m.participants.get? ssrc = none → Delivers m event [] m

def progressed (s : Session) (m : Machines) (outs : List Outbox) : Session :=
  { s with
    arbitrator := m.arbitrator
    participants := m.participants
    scheduler := s.scheduler.scheduleEach
      (outs.flatMap (wishes s.config.linkDelay.toNat)) }

variable {s : Session} {m m' : Machines} {outs outs' : List Outbox} {r r' : Run} {op : Operation}

@[simp] theorem machines_progressed : (s.progressed m outs).machines = m := rfl

@[simp] theorem now_progressed : (s.progressed m outs).now = s.now :=
  Scheduler.now_scheduleEach _ _

@[simp] theorem progressed_machines_nil : s.progressed s.machines [] = s := rfl

theorem progressed_progressed :
    (s.progressed m outs).progressed m' outs' = s.progressed m' (outs ++ outs') := by
  simp only [progressed, List.flatMap_append, Scheduler.scheduleEach_append]

theorem progressed_dispatch (out : Outbox) (r : Run) :
    (dispatch out r).state = r.state.progressed r.state.machines [out] := by
  rw [state_dispatch, progressed, List.flatMap_singleton]
  rfl

def telling (s : Session) (out : Outbox) : List TraceEvent :=
  out.messages.map (fun e => ⟨s.now, .messageSent s.callId e.sender e.receiver e.message⟩) ++
    out.events.map fun event => ⟨s.now, event⟩

def logged (r : Run) (outs : List Outbox) : List TraceEvent :=
  (outs.flatMap r.state.telling).reverse ++ r.log

@[simp] theorem telling_progressed : (s.progressed m outs).telling = s.telling := by
  funext out
  rw [telling, now_progressed]
  rfl

private theorem log_letters (letters : List Envelope) (r : Run) :
    (letters.foldl (fun r e => sendOff e r) r).log =
      (letters.map fun e => ⟨r.state.now,
        .messageSent r.state.callId e.sender e.receiver e.message⟩).reverse ++ r.log := by
  induction letters generalizing r with
  | nil => rfl
  | cons e letters ih =>
    rw [List.foldl_cons, ih, List.map_cons, List.reverse_cons, List.append_assoc]
    rfl

private theorem log_told (events : List FloorEvent) (r : Run) :
    (events.foldl (fun r event => tell event r) r).log =
      (events.map fun event => ⟨r.state.now, event⟩).reverse ++ r.log := by
  induction events generalizing r with
  | nil => rfl
  | cons event events ih =>
    rw [List.foldl_cons, ih, List.map_cons, List.reverse_cons, List.append_assoc]
    rfl

/-- What a step wants told is told at the end of it. -/
theorem log_dispatch (out : Outbox) (r : Run) : (dispatch out r).log = logged r [out] := by
  have htimers : ∀ (timers : List Armed) (r : Run),
      (timers.foldl (fun r armed => schedule armed.delay (.expiry armed.ticket) r) r).log = r.log ∧
        (timers.foldl (fun r armed => schedule armed.delay (.expiry armed.ticket) r) r).state.now =
          r.state.now ∧
        (timers.foldl (fun r armed => schedule armed.delay (.expiry armed.ticket) r)
          r).state.callId = r.state.callId := by
    intro timers
    induction timers with
    | nil => exact fun r => ⟨rfl, rfl, rfl⟩
    | cons armed timers ih => exact fun r => ih _
  have hletters : ∀ (letters : List Envelope) (r : Run),
      (letters.foldl (fun r e => sendOff e r) r).state.now = r.state.now := by
    intro letters
    induction letters with
    | nil => exact fun r => rfl
    | cons e letters ih => exact fun r => ih _
  obtain ⟨hlog, hnow, hcall⟩ := htimers out.timers r
  rw [dispatch, log_told, log_letters, hletters, hlog, hnow, hcall, logged,
    List.flatMap_singleton, telling, List.reverse_append, List.append_assoc]

/-- The call comes from another by turns of an operation that fill the given outboxes. -/
structure Follows (op : Operation) (r : Run) (outs : List Outbox) (r' : Run) : Prop where
  exists_parts : ∃ m, Parts op r.state.machines outs m ∧ r'.state = r.state.progressed m outs
  log : r'.log = logged r outs

theorem Follows.refl (op : Operation) (r : Run) : Follows op r [] r :=
  ⟨⟨r.state.machines, .none _, rfl⟩, rfl⟩

theorem Part.follows (h : Part op r.state.machines outs m)
    (hstate : r'.state = r.state.progressed m outs) (hlog : r'.log = logged r outs) :
    Follows op r outs r' :=
  ⟨⟨m, h.alone, hstate⟩, hlog⟩

private theorem follows_act {ssrc : Ssrc} {input : Participant.Input}
    (hactive : r.state.active = true) (hprompts : op.Prompts ssrc input) :
    Follows op r (r.state.machines.turnOutboxes ssrc input) (act input ssrc r).2 := by
  simp only [act, withParticipant, whenActive, hactive, if_true, Machines.turnOutboxes]
  cases hget : r.state.participants.get? ssrc with
  | none =>
    simp only [machines, hget]
    exact .refl _ _
  | some p =>
    simp only [machines, hget]
    apply Part.follows (.participant hget hprompts)
    · rw [progressed_dispatch]
      rfl
    · exact log_dispatch _ _

private theorem quiet_callInitialized (p : Participant) :
    (Participant.callInitialized ⟨p, {}⟩).out.messages = [] ∧
      (Participant.callInitialized ⟨p, {}⟩).out.timers = [] := by
  simp only [Participant.callInitialized]
  split
  · exact ⟨Participant.messages_moveTo _,
      congrArg Winding.drawn (Participant.winding_moveTo (t := Turn.update _ _) _)⟩
  · exact ⟨rfl, rfl⟩

theorem quiet_callEstablished (granted : Bool) (priority : Priority) (p : Participant) :
    (Participant.callEstablished granted priority ⟨p, {}⟩).out.messages = [] ∧
      (Participant.callEstablished granted priority ⟨p, {}⟩).out.timers = [] := by
  refine ⟨?_, congrArg Winding.drawn (Participant.winding_callEstablished _ _)⟩
  simp only [Participant.callEstablished]
  split
  · rw [Participant.messages_takeFloor]
    rfl
  · rfl

/-- Setting the call up at one party is refused, with nothing to do for the others, or it is two
turns into one outbox. -/
private theorem setUp_cases (ssrc : Ssrc) (hactive : r.state.active = true)
    (hprompts : op.Prompts ssrc .initialized) :
    (∃ e r', setUp ssrc r = (.error e, r') ∧ Follows op r [] r' ∧
      ∀ rest, r.state.machines.setUpOutboxes (ssrc :: rest) = []) ∨
    ∃ out m r', setUp ssrc r = (.ok (), r') ∧ Parts op r.state.machines [out] m ∧
      r'.state = r.state.progressed m [out] ∧ r'.log = logged r [out] ∧
      ∀ rest, r.state.machines.setUpOutboxes (ssrc :: rest) = out :: m.setUpOutboxes rest := by
  simp only [setUp, withParticipant, whenActive, hactive, if_true, Machines.setUpOutboxes]
  cases hget : r.state.participants.get? ssrc with
  | none =>
    refine .inl ⟨_, _, rfl, .refl _ _, fun rest => ?_⟩
    simp only [machines, hget]
  | some p =>
    obtain ⟨hmessages, htimers⟩ := quiet_callInitialized p
    have hquiet := Part.quiet (m := r.state.machines) hget hprompts hmessages htimers
    cases hanswer : Arbitrator.callInitialized ssrc
        ⟨r.state.arbitrator, (Participant.callInitialized ⟨p, {}⟩).out⟩ with
    | error e =>
      refine .inl ⟨e, setParticipant ssrc (Participant.callInitialized ⟨p, {}⟩).machine r,
        by simp only [setParticipant, hanswer, refuse], hquiet.follows rfl rfl, fun rest => ?_⟩
      simp only [machines, hget, hanswer]
    | ok u =>
      have hturn : Part op ⟨r.state.arbitrator, r.state.participants.modify ssrc fun _ =>
          (p.handle .initialized).machine⟩ [u.out] _ :=
        .arbitrator rfl hmessages htimers (.initialized hanswer)
      refine .inr ⟨u.out, _, dispatch u.out (setArbitrator u.machine
          (setParticipant ssrc (Participant.callInitialized ⟨p, {}⟩).machine r)),
        by simp only [setParticipant, hanswer], .next hquiet hturn.alone, ?_, log_dispatch _ _,
        fun rest => ?_⟩
      · rw [progressed_dispatch]
        rfl
      · simp only [machines, hget, hanswer]
        rfl

private theorem follows_setUpEach (ssrcs : List Ssrc) (hactive : r.state.active = true)
    (hprompts : ∀ ssrc, op.Prompts ssrc .initialized) :
    Follows op r (r.state.machines.setUpOutboxes ssrcs) (setUpEach ssrcs r).2 := by
  induction ssrcs generalizing r with
  | nil => exact .refl _ _
  | cons ssrc rest ih =>
    rcases setUp_cases ssrc hactive (hprompts ssrc) with
      ⟨e, r', heq, hfollows, houts⟩ | ⟨out, m, r', heq, hparts, hstate, hlog, houts⟩
    · simpa only [setUpEach, heq, houts] using hfollows
    · obtain ⟨⟨m', hrest, hstate'⟩, hlog'⟩ := ih (r := r') (by rw [hstate]; exact hactive)
      simp only [setUpEach, heq, houts]
      rw [hstate, machines_progressed] at hrest hlog'
      refine ⟨⟨m', hparts.append hrest, ?_⟩, ?_⟩
      · rw [hstate', hstate, progressed_progressed, machines_progressed]
        rfl
      · rw [hlog', logged, hstate, telling_progressed, hlog]
        simp [logged]

private theorem follows_establish {ssrc : Ssrc} {granted : Bool} (hactive : r.state.active = true) :
    Follows (.establish ssrc granted) r (r.state.machines.establishOutboxes ssrc granted)
      (establish ssrc granted r).2 := by
  simp only [establish, withParticipant, whenActive, hactive, if_true, Machines.establishOutboxes]
  cases hget : r.state.participants.get? ssrc with
  | none =>
    simp only [machines, hget]
    exact .refl _ _
  | some p =>
    obtain ⟨hmessages, htimers⟩ := quiet_callEstablished granted p.priority p
    have hprompts := Operation.Prompts.establish ssrc granted p.priority
    simp only [machines, hget, setParticipant]
    cases granted with
    | false =>
      apply Part.follows (.participant hget hprompts)
      · simp only [Bool.false_eq_true, if_false, progressed_dispatch]
        rfl
      · exact log_dispatch _ _
    | true =>
      have hquiet := Part.quiet (m := r.state.machines) hget hprompts hmessages htimers
      cases hanswer : Arbitrator.implicitFloorRequest ssrc
          ⟨r.state.arbitrator, (Participant.callEstablished true p.priority ⟨p, {}⟩).out⟩ with
      | error e =>
        simp only [if_true]
        exact hquiet.follows rfl rfl
      | ok u =>
        have hturn : Part (.establish ssrc true)
            ⟨r.state.arbitrator, r.state.participants.modify ssrc fun _ =>
              (p.handle (.established true p.priority)).machine⟩ [u.out] _ :=
          .arbitrator rfl hmessages htimers (.implicitRequest hanswer)
        simp only [if_true]
        refine ⟨⟨_, .next hquiet hturn.alone, ?_⟩, log_dispatch _ _⟩
        rw [progressed_dispatch]
        rfl

theorem quiet_beginRelease (t : Turn Participant) :
    (Participant.beginRelease t).out.messages = t.out.messages ∧
      (Participant.beginRelease t).out.timers = t.out.timers :=
  ⟨Participant.messages_moveTo _,
    congrArg Winding.drawn (Participant.winding_moveTo (t := t.update _) _)⟩

private theorem erase_of_get?_eq_none {α : Type} {roster : Roster α} {ssrc : Ssrc}
    (h : roster.get? ssrc = none) : roster.erase ssrc = roster := by
  have hkeep : roster.entries.filter (·.1 ≠ ssrc) = roster.entries := by
    rw [List.filter_eq_self]
    intro e he
    have habsent := roster.contains_eq_isSome_get? ssrc
    rw [h, Option.isSome_none, Roster.contains, List.any_eq_false] at habsent
    simpa using habsent e he
  simp only [Roster.erase, hkeep]

private theorem follows_clientRelease {ssrc : Ssrc} (hactive : r.state.active = true) :
    Follows (.leave ssrc) r (r.state.machines.leaveOutboxes ssrc) (clientRelease ssrc r).2 := by
  simp only [clientRelease, whenActive, hactive, if_true, Machines.leaveOutboxes]
  cases hanswer : Arbitrator.clientRelease ssrc ⟨r.state.arbitrator, {}⟩ with
  | error e =>
    simp only [machines, hanswer]
    exact .refl _ _
  | ok u =>
    simp only [machines, hanswer, setArbitrator]
    cases hget : r.state.participants.get? ssrc with
    | none =>
      have hgone : r.state.machines.participants.erase ssrc = r.state.participants :=
        erase_of_get?_eq_none hget
      apply Part.follows (.left rfl hanswer rfl rfl)
      · rw [progressed_dispatch, hgone]
        rfl
      · exact log_dispatch _ _
    | some p =>
      obtain ⟨hmessages, htimers⟩ := quiet_beginRelease ⟨p, u.out⟩
      apply Part.follows (.left rfl hanswer hmessages htimers)
      · rw [progressed_dispatch]
        rfl
      · exact log_dispatch _ _

/-- The participants that take their part in taking the call down are stopped, and no other. -/
theorem get?_releaseEach (ssrcs : List Ssrc) (hdistinct : ssrcs.Nodup)
    (participants : Roster Participant) (out : Outbox) (ssrc : Ssrc) :
    (releaseEach ssrcs participants out).1.get? ssrc =
      if ssrc ∈ ssrcs then
        (participants.get? ssrc).map fun p => (p.handle .beginRelease).machine
      else participants.get? ssrc := by
  induction ssrcs generalizing participants out with
  | nil => simp [releaseEach]
  | cons first rest ih =>
    obtain ⟨hfirst, hrest⟩ := List.nodup_cons.mp hdistinct
    simp only [releaseEach]
    split
    · next hnone =>
      rw [ih hrest]
      by_cases heq : ssrc = first
      · subst heq
        simp [hnone]
      · simp [heq]
    · next p hp =>
      rw [ih hrest, Roster.get?_modify]
      by_cases heq : ssrc = first
      · subst heq
        simp [hfirst, hp, Participant.handle, Participant.beginRelease]
      · simp [heq]

/-- Taking leave of the participants sends nothing and times nothing. -/
theorem quiet_releaseEach (ssrcs : List Ssrc) (participants : Roster Participant)
    (out : Outbox) :
    (releaseEach ssrcs participants out).2.messages = out.messages ∧
      (releaseEach ssrcs participants out).2.timers = out.timers := by
  induction ssrcs generalizing participants out with
  | nil => exact ⟨rfl, rfl⟩
  | cons first rest ih =>
    simp only [releaseEach]
    split
    · exact ih participants out
    · next p hp =>
      obtain ⟨hmessages, htimers⟩ := quiet_beginRelease ⟨p, out⟩
      obtain ⟨hmessages', htimers'⟩ := ih
        (participants.modify first fun _ => (Participant.beginRelease ⟨p, out⟩).machine)
        (Participant.beginRelease ⟨p, out⟩).out
      exact ⟨hmessages'.trans hmessages, htimers'.trans htimers⟩

/-- What an operation does before anything is handed over is a step, or it brings in a party. -/
theorem follows_perform (op : Operation) (hinstant : op.Instant r.state)
    (hentered : Happening.entered? ⟨r.state, .operation op⟩ = none) :
    Follows op r (op.outboxes r.state) (perform op r).2 := by
  cases hactive : r.state.active with
  | false =>
    rw [perform_of_over op hinstant hactive]
    simp only [Operation.outboxes, hactive]
    exact .refl _ _
  | true =>
    simp only [Operation.outboxes, hactive, if_true]
    cases op with
    | join ssrc priority originator =>
      have hknown : r.state.arbitrator.roster.contains ssrc = true := by
        simpa [Happening.entered?, hactive] using hentered
      simp only [perform, join, whenActive, hactive, if_true, Arbitrator.addParticipant, hknown]
      exact .refl _ _
    | setUp ssrc =>
      rcases setUp_cases ssrc hactive (.setUp ssrc) with
        ⟨e, r', heq, hfollows, houts⟩ | ⟨out, m, r', heq, hparts, hstate, hlog, houts⟩
      · simpa only [perform, heq, houts] using hfollows
      · simp only [perform, heq, houts]
        exact ⟨⟨m, hparts, hstate⟩, hlog⟩
    | setUpAll => exact follows_setUpEach _ hactive .setUpAll
    | establish ssrc granted => exact follows_establish hactive
    | push | releaseTalk | accept | askPosition | setDual | setIndicator =>
      exact follows_act hactive (by constructor)
    | leave ssrc => exact follows_clientRelease hactive
    | release => simpa [hactive] using hinstant.down rfl
    | runUntilIdle | advanceTo t | advanceBy delta =>
      have hstill := hinstant.still
      simp [Operation.target?] at hstill

/-- Handing over an event is a step of the machines. -/
theorem delivers_deliver (event : SessionEvent) (r : Run) :
    (∃ m, Delivers r.state.machines event (r.state.machines.eventOutboxes event) m ∧
      (deliver event r).state = r.state.progressed m (r.state.machines.eventOutboxes event)) ∧
    (deliver event r).log = logged r (r.state.machines.eventOutboxes event) := by
  cases event with
  | expiry ticket =>
    cases howner : ticket.owner with
    | arbitrator =>
      simp only [deliver, Machines.eventOutboxes, howner]
      exact ⟨⟨_, .arbitratorTicket howner, progressed_dispatch _ _⟩, log_dispatch _ _⟩
    | participant ssrc =>
      have hmeant : (SessionEvent.expiry ticket).input? ssrc = some (.expire ticket) := by
        simp [SessionEvent.input?, howner]
      simp only [deliver, Machines.eventOutboxes, howner, onParticipant, Machines.turnOutboxes]
      cases hget : r.state.participants.get? ssrc with
      | none =>
        simp only [machines, hget]
        exact ⟨⟨_, .dropped hmeant hget, rfl⟩, rfl⟩
      | some p =>
        simp only [machines, hget]
        exact ⟨⟨_, .participantTicket howner hget, progressed_dispatch _ _⟩, log_dispatch _ _⟩
  | toArbitrator message =>
    exact ⟨⟨_, .arbitratorLetter message, progressed_dispatch _ _⟩, log_dispatch _ _⟩
  | toParticipant ssrc message =>
    have hmeant : (SessionEvent.toParticipant ssrc message).input? ssrc = some (.receive message) :=
      if_pos rfl
    simp only [deliver, Machines.eventOutboxes, onParticipant, Machines.turnOutboxes]
    cases hget : r.state.participants.get? ssrc with
    | none =>
      simp only [machines, hget]
      exact ⟨⟨_, .dropped hmeant hget, rfl⟩, rfl⟩
    | some p =>
      simp only [machines, hget]
      exact ⟨⟨_, .participantLetter message hget, progressed_dispatch _ _⟩, log_dispatch _ _⟩

theorem follows_beginRelease (hactive : r.state.active = true) :
    Follows .release r (Operation.release.outboxes r.state) (beginRelease r) := by
  simp only [Operation.outboxes, hactive, if_true]
  obtain ⟨hmessages, htimers⟩ := quiet_releaseEach r.state.participants.ssrcs
    r.state.participants (Arbitrator.beginRelease ⟨r.state.arbitrator, {}⟩).out
  refine Part.follows (.closed rfl (fun ssrc => ?_) hmessages htimers) (progressed_dispatch _ _)
    (log_dispatch _ _)
  have hdistinct : r.state.participants.ssrcs.Nodup :=
    r.state.participants.ascending.imp UInt32.ne_of_lt
  rw [get?_releaseEach _ hdistinct]
  split
  · rfl
  · next habsent =>
    have hnone : r.state.participants.get? ssrc = none := by
      rw [← Roster.contains_iff_mem, Roster.contains_eq_isSome_get?] at habsent
      simpa using habsent
    simp [machines, hnone]

structure Downed (s s' : Session) : Prop where
  arbitrator : s'.arbitrator = (Arbitrator.finishRelease ⟨s.arbitrator, {}⟩).machine
  participants : ∀ ssrc, s'.participants.get? ssrc =
    (s.participants.get? ssrc).map Participant.finishRelease
  config : s'.config = s.config
  pending : s'.scheduler.pending = []
  now : s'.now = s.now
  seq : s.scheduler.seq ≤ s'.scheduler.seq
  active : s'.active = false

private theorem state_finishRelease (r : Run) : (finishRelease r).state =
    { r.state with
      arbitrator := (Arbitrator.finishRelease ⟨r.state.arbitrator, {}⟩).machine
      participants := r.state.participants.mapWith fun _ p => p.finishRelease
      scheduler := (r.state.scheduler.scheduleEach (wishes r.state.config.linkDelay.toNat
        (Arbitrator.finishRelease ⟨r.state.arbitrator, {}⟩).out)).clear
      active := false } := by
  simp only [finishRelease, tell, state_dispatch]

theorem downed_finishRelease (r : Run) : Downed r.state (finishRelease r).state := by
  rw [state_finishRelease]
  exact {
    arbitrator := rfl
    participants := fun ssrc => Roster.get?_mapWith _ _ _
    config := rfl
    pending := rfl
    now := Scheduler.now_scheduleEach _ _
    seq := by
      simp only [Scheduler.clear, Scheduler.seq_scheduleEach]
      exact Nat.le_add_right _ _
    active := rfl }

/-- The calls that can be reached, told by steps of their machines. -/
inductive Stage (config : SessionConfig) : History → Session → Prop where
  | created (callId : CallId) (callType : CallType) (now : Nat) :
      Stage config [] (Session.create callId callType config now)
  | acted {h : History} {s : Session} {m : Machines} (op : Operation) : Stage config h s →
      Happening.entered? ⟨s, .operation op⟩ = none → Parts op s.machines (op.outboxes s) m →
      Stage config (⟨s, .operation op⟩ :: h) (s.progressed m (op.outboxes s))
  | joined {h : History} {s : Session} {ssrc : Ssrc} {priority : Priority} {originator : Bool}
      {a : Arbitrator} : Stage config h s → s.active = true →
      s.arbitrator.addParticipant ssrc priority originator = .ok a →
      Stage config (⟨s, .operation (.join ssrc priority originator)⟩ :: h)
        { s with
          arbitrator := a
          participants := s.participants.insert ssrc
            (.create s.callId ssrc s.callType priority originator s.config.participant) }
  | delivered {h : History} {s : Session} {m : Machines} {t : Nat} {event : SessionEvent}
      {scheduler : Scheduler SessionEvent} : Stage config h s →
      s.scheduler.popDue t = some (event, scheduler) →
      Delivers s.machines event (s.machines.eventOutboxes event) m →
      Stage config (⟨s, .delivery event⟩ :: h)
        (progressed { s with scheduler := scheduler } m (s.machines.eventOutboxes event))
  | settled {h : History} {s : Session} {t : Nat} : Stage config h s →
      s.scheduler.popDue t = none →
      Stage config h { s with scheduler := s.scheduler.settle t }
  | ended {h : History} {s s' : Session} : Stage config h s → Downed s s' → Stage config h s'

theorem Reached.stage {config : SessionConfig} {phase : Phase} {h : History}
    (hr : Reached config phase h r) : Stage config h r.state := by
  induction hr with
  | created callId callType now => exact .created callId callType now
  | @performed h r op _ hinstant ih =>
    cases hentered : Happening.entered? ⟨r.state, .operation op⟩ with
    | none =>
      obtain ⟨m, hparts, heq⟩ := (follows_perform op hinstant hentered).exists_parts
      rw [heq]
      exact .acted op ih hentered hparts
    | some ssrc =>
      obtain ⟨entrant, priority, originator, rfl⟩ : ∃ entrant priority originator,
          op = .join entrant priority originator := by
        cases op with
        | join entrant priority originator => exact ⟨entrant, priority, originator, rfl⟩
        | _ => cases hentered
      simp only [Happening.entered?, Option.ite_none_right_eq_some, Bool.and_eq_true] at hentered
      obtain ⟨⟨hactive, hstranger⟩, -⟩ := hentered
      have hstranger : r.state.arbitrator.roster.contains entrant = false := by
        simpa using hstranger
      cases hadded : r.state.arbitrator.addParticipant entrant priority originator with
      | error e => simp [Arbitrator.addParticipant, hstranger] at hadded
      | ok a =>
        rw [perform, join, whenActive, if_pos hactive]
        simp only [hadded]
        exact .joined ih hactive hadded
  | @started h r t op _ htarget ih =>
    have hnothing : op.outboxes r.state = [] := by
      cases op <;> simp [Operation.target?] at htarget <;> simp [Operation.outboxes]
    have hentered : Happening.entered? ⟨r.state, .operation op⟩ = none := by
      cases op <;> simp [Operation.target?] at htarget <;> rfl
    have hstage := Stage.acted (m := r.state.machines) op ih hentered (by
      rw [hnothing]
      exact .none _)
    rwa [hnothing, progressed_machines_nil] at hstage
  | @delivered phase h r t event scheduler _ _ hpop ih =>
    obtain ⟨⟨m, hdelivers, heq⟩, -⟩ :=
      delivers_deliver event { r with state := { r.state with scheduler := scheduler } }
    rw [heq]
    exact .delivered ih hpop hdelivers
  | @settled h r t _ hnone ih => exact .settled ih (Option.map_eq_none_iff.mp hnone)
  | @ending h r _ hactive ih =>
    obtain ⟨m, hparts, heq⟩ := (follows_beginRelease hactive).exists_parts
    rw [heq]
    exact .acted .release ih rfl hparts
  | @ended h r t _ hnone ih =>
    exact .ended (.settled ih (Option.map_eq_none_iff.mp hnone)) (downed_finishRelease (settle t r))

section Stage

variable {config : SessionConfig} {h : History}

theorem Stage.config_eq (hs : Stage config h s) : s.config = config := by
  induction hs with
  | created => rfl
  | acted _ _ _ _ ih => exact ih
  | joined _ _ _ ih => exact ih
  | delivered _ _ _ ih => exact ih
  | settled _ _ ih => exact ih
  | ended _ hdowned ih => exact hdowned.config.trans ih

/-- What waits in a call is in order and not behind the clock. -/
theorem Stage.timely (hs : Stage config h s) : s.scheduler.Timely := by
  induction hs with
  | created => exact .of_pending_eq_nil rfl
  | acted _ _ _ _ ih => exact Scheduler.timely_scheduleEach _ ih
  | joined _ _ _ ih => exact ih
  | delivered _ hpop _ ih =>
    exact Scheduler.timely_scheduleEach _ (Scheduler.timely_popDue ih hpop)
  | settled _ hnone ih => exact Scheduler.timely_settle ih hnone
  | ended _ hdowned _ => exact .of_pending_eq_nil hdowned.pending

theorem Operation.outboxes_of_over (op : Operation) (hover : s.active = false) :
    op.outboxes s = [] := by
  simp [Operation.outboxes, hover]

/-- Nothing waits in a call that is down. -/
theorem Stage.still (hs : Stage config h s) (hover : s.active = false) :
    s.scheduler.pending = [] := by
  induction hs with
  | created => rfl
  | @acted _ s _ op _ _ _ ih =>
    have hinactive : s.active = false := hover
    rw [op.outboxes_of_over hinactive]
    exact ih hinactive
  | joined _ _ _ ih => exact ih hover
  | delivered _ hpop _ ih =>
    obtain ⟨x, rest, hpending, -⟩ := Scheduler.popDue_eq_some hpop
    rw [ih hover] at hpending
    cases hpending
  | settled _ _ ih => exact ih hover
  | ended _ hdowned _ => exact hdowned.pending

/-- Something is handed over only as long as the call is not down. -/
theorem Stage.active_of_popDue {t : Nat} {event : SessionEvent}
    {scheduler : Scheduler SessionEvent} (hs : Stage config h s)
    (hpop : s.scheduler.popDue t = some (event, scheduler)) : s.active = true := by
  by_contra hover
  obtain ⟨x, rest, hpending, -⟩ := Scheduler.popDue_eq_some hpop
  rw [hs.still (Bool.not_eq_true _ ▸ hover)] at hpending
  cases hpending

theorem sound_part (h : Part op m outs m') (hsound : m.arbitrator.places.Sound) :
    m'.arbitrator.places.Sound := by
  cases h with
  | arbitrator hmachine hmessages _ hadmits =>
    exact hadmits.takes.sound (by rwa [hmachine]) hmessages
  | participant | quiet => exact hsound
  | left _ h => exact (Arbitrator.Takes.left h).sound hsound rfl
  | closed => exact Arbitrator.Takes.begun.sound hsound rfl

theorem sound_parts (h : Parts op m outs m') (hsound : m.arbitrator.places.Sound) :
    m'.arbitrator.places.Sound :=
  h.keeps (P := fun m => m.arbitrator.places.Sound) (fun _ _ _ => sound_part) hsound

theorem sound_delivers {event : SessionEvent} (h : Delivers m event outs m')
    (hsound : m.arbitrator.places.Sound) : m'.arbitrator.places.Sound := by
  cases h with
  | @arbitratorTicket ticket =>
    exact (Arbitrator.leads_expire (fun _ => False) ticket (t := ⟨m.arbitrator, {}⟩) hsound
      rfl).sound
  | arbitratorLetter message => exact (Arbitrator.Takes.received message).sound hsound rfl
  | participantTicket | participantLetter | dropped => exact hsound

/-- The places of a call are sound, whoever leaves and comes back. -/
theorem Stage.sound (hs : Stage config h s) : s.arbitrator.places.Sound := by
  induction hs with
  | created callId callType => exact Arbitrator.sound_create callId callType config.arbitrator
  | acted _ _ _ hparts ih => exact sound_parts hparts ih
  | joined _ _ hadded ih =>
    obtain ⟨-, -, -, hsound⟩ := Arbitrator.leads_addParticipant ih hadded
    exact hsound
  | delivered _ _ hdelivers ih => exact sound_delivers hdelivers ih
  | settled _ _ ih => exact ih
  | ended _ hdowned ih =>
    rw [hdowned.arbitrator]
    exact Arbitrator.Takes.finished.sound ih rfl

end Stage

end Session
end FloorControl
