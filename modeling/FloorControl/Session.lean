import FloorControl.ArbitratorStep
import FloorControl.Participant
import FloorControl.Scheduler

/-!
# A call

One call is an arbitrator, its participants and a scheduler of their own. What a machine wants done
in a step is done when the step is over: tickets are scheduled first, then messages, which are told
to the observers and scheduled for the time that they are on their way, and then events are told.
Messages and tickets come back one at a time when the clock of the call is moved, so no two steps
overlap and messages arrive in the order in which they were sent.

Moving the clock ends only when nothing is due any longer. A call with a delay of zero may go on
for ever at one moment, so the loop is given a number of steps; `Advances` says what a finished
advance is without any.
-/

namespace FloorControl

/-- What waits in the scheduler of a call. -/
inductive SessionEvent where
  | expiry (ticket : Ticket)
  | toArbitrator (message : Message)
  | toParticipant (ssrc : Ssrc) (message : Message)
  deriving DecidableEq, Repr

def Envelope.arrival (e : Envelope) : SessionEvent :=
  match e.receiver with
  | .arbitrator => .toArbitrator e.message
  | .participant ssrc => .toParticipant ssrc e.message

structure Session where
  callId : CallId
  callType : CallType
  config : SessionConfig
  arbitrator : Arbitrator
  participants : Roster Participant := .empty
  scheduler : Scheduler SessionEvent := {}
  /-- Whether the call has not been released. -/
  active : Bool := true

namespace Session

def create (callId : CallId) (callType : CallType) (config : SessionConfig) (now : Nat := 0) :
    Session where
  callId := callId
  callType := callType
  config := config
  arbitrator := Arbitrator.create callId callType config.arbitrator
  scheduler := { now := now }

abbrev Run := Observed Session

def now (s : Session) : Nat := s.scheduler.now

def holder? (s : Session) : Option Ssrc := s.arbitrator.holder.map (·.ssrc)

def stampMedia (s : Session) (ssrc : Ssrc) (frame : MediaFrame) : Except FloorError MediaFrame :=
  if !s.active then .error (.callNotActive s.callId)
  else
    match s.participants.get? ssrc with
    | none => .error (.participantNotFound ssrc)
    | some p => p.stampMedia frame

/-- Whether the arbitrator passes the frame on. -/
def relaysMedia (s : Session) (frame : MediaFrame) : Bool :=
  s.active && s.arbitrator.passesMedia frame.ssrc

def tell (event : FloorEvent) (r : Run) : Run :=
  { r with log := ⟨r.state.scheduler.now, event⟩ :: r.log }

def schedule (delay : Nat) (event : SessionEvent) (r : Run) : Run :=
  { r with state := { r.state with scheduler := r.state.scheduler.schedule delay event } }

def sendOff (e : Envelope) (r : Run) : Run :=
  schedule r.state.config.linkDelay.toNat e.arrival
    (tell (.messageSent r.state.callId e.sender e.receiver e.message) r)

def dispatch (out : Outbox) (r : Run) : Run :=
  let r := out.timers.foldl (fun r armed => schedule armed.delay (.expiry armed.ticket) r) r
  let r := out.messages.foldl (fun r e => sendOff e r) r
  out.events.foldl (fun r event => tell event r) r

def setArbitrator (a : Arbitrator) (r : Run) : Run :=
  { r with state := { r.state with arbitrator := a } }

def setParticipant (ssrc : Ssrc) (p : Participant) (r : Run) : Run :=
  { r with state := { r.state with participants := r.state.participants.modify ssrc fun _ => p } }

/-- One of the participants takes its turn. What was meant for a party that has left is dropped. -/
def onParticipant (ssrc : Ssrc) (f : Turn Participant → Turn Participant) (r : Run) : Run :=
  match r.state.participants.get? ssrc with
  | none => r
  | some p =>
    let t := f ⟨p, {}⟩
    dispatch t.out (setParticipant ssrc t.machine r)

def onArbitrator (f : Turn Arbitrator → Turn Arbitrator) (r : Run) : Run :=
  let t := f ⟨r.state.arbitrator, {}⟩
  dispatch t.out (setArbitrator t.machine r)

/-- Hand an event to the machine that it is meant for. -/
def deliver (event : SessionEvent) (r : Run) : Run :=
  match event with
  | .expiry ticket =>
    match ticket.owner with
    | .arbitrator => onArbitrator (Arbitrator.expire ticket) r
    | .participant ssrc => onParticipant ssrc (Participant.expire ticket) r
  | .toArbitrator message => onArbitrator (Arbitrator.receive message) r
  | .toParticipant ssrc message => onParticipant ssrc (Participant.receive message) r

/-- Take the next event that is due at `t` or before out of the scheduler, and hand it over. -/
def deliverNext? (t : Nat) (r : Run) : Option Run :=
  (r.state.scheduler.popDue t).map fun (event, scheduler) =>
    deliver event { r with state := { r.state with scheduler := scheduler } }

def settle (t : Nat) (r : Run) : Run :=
  { r with state := { r.state with scheduler := r.state.scheduler.settle t } }

/-- Hand over everything that is due at `t` or before and move the clock there, in at most the
given number of steps. -/
def advance? : (steps : Nat) → (t : Nat) → Run → Option Run
  | 0, _, _ => none
  | steps + 1, t, r =>
    match deliverNext? t r with
    | some r => advance? steps t r
    | none => some (settle t r)

/-- A finished advance to `t`. -/
inductive Advances (t : Nat) : Run → Run → Prop where
  | settled {r : Run} : deliverNext? t r = none → Advances t r (settle t r)
  | delivered {r next last : Run} :
      deliverNext? t r = some next → Advances t next last → Advances t r last

/-- How many steps an advance may take: more than any that ends has time for. -/
def stepLimit : Nat := Nat.pow 2 62

/-- Hand over everything that is due at `t` or before, one event at a time, and move the clock
there. An advance that has no end, as when a timer without delay draws its ticket again and again,
leaves the call as it is. -/
def advanceTo (t : Nat) (r : Run) : Run := (advance? stepLimit t r).getD r

def advanceBy (delta : Nat) (r : Run) : Run := advanceTo (Time.after r.state.now delta) r

/-- Hand over everything that is due now. -/
def runUntilIdle (r : Run) : Run := advanceTo r.state.now r

theorem Advances.of_advance? {steps t : Nat} {r last : Run} (h : advance? steps t r = some last) :
    Advances t r last := by
  induction steps generalizing r with
  | zero => simp [advance?] at h
  | succ steps ih =>
    rw [advance?] at h
    split at h
    · next next hn => exact .delivered hn (ih h)
    · next hn => cases h; exact .settled hn

theorem Advances.exists_advance? {t : Nat} {r last : Run} (h : Advances t r last) :
    ∃ steps, advance? steps t r = some last := by
  induction h with
  | settled hn => exact ⟨1, by simp [advance?, hn]⟩
  | delivered hn _ ih =>
    obtain ⟨steps, hs⟩ := ih
    exact ⟨steps + 1, by simp [advance?, hn, hs]⟩

/-- More steps do not change a finished advance. -/
theorem advance?_mono {steps more t : Nat} {r last : Run} (h : advance? steps t r = some last)
    (hle : steps ≤ more) : advance? more t r = some last := by
  induction steps generalizing r more with
  | zero => simp [advance?] at h
  | succ steps ih =>
    obtain ⟨more, rfl⟩ : ∃ m, more = m + 1 := ⟨more - 1, by omega⟩
    rw [advance?] at h ⊢
    split at h
    · next next hn => exact ih h (by omega)
    · next hn => exact h

/-- A finished advance has one outcome. -/
theorem Advances.unique {t : Nat} {r a b : Run} (ha : Advances t r a) (hb : Advances t r b) :
    a = b := by
  obtain ⟨m, hm⟩ := ha.exists_advance?
  obtain ⟨n, hn⟩ := hb.exists_advance?
  have hm := advance?_mono hm (Nat.le_max_left m n)
  have hn := advance?_mono hn (Nat.le_max_right m n)
  exact Option.some.inj (hm.symm.trans hn)

theorem advanceTo_eq {steps t : Nat} {r last : Run} (h : advance? steps t r = some last)
    (hle : steps ≤ stepLimit) : advanceTo t r = last := by
  simp [advanceTo, advance?_mono h hle]

/-- The answer to an operation that may be refused, with the call after it. -/
abbrev Answer := Except FloorError Unit × Run

def refuse (e : FloorError) (r : Run) : Answer := (.error e, r)

def whenActive (f : Run → Answer) (r : Run) : Answer :=
  if r.state.active then f r else refuse (.callNotActive r.state.callId) r

def withParticipant (ssrc : Ssrc) (f : Participant → Run → Answer) : Run → Answer :=
  whenActive fun r =>
    match r.state.participants.get? ssrc with
    | none => refuse (.participantNotFound ssrc) r
    | some p => f p r

def act (input : Participant.Input) (ssrc : Ssrc) : Run → Answer :=
  withParticipant ssrc fun p r =>
    let t := p.handle input
    (.ok (), dispatch t.out (setParticipant ssrc t.machine r))

def join (ssrc : Ssrc) (priority : Priority) (originator : Bool) : Run → Answer :=
  whenActive fun r =>
    match r.state.arbitrator.addParticipant ssrc priority originator with
    | .error e => refuse e r
    | .ok a =>
      let s := r.state
      let p := Participant.create s.callId ssrc s.callType priority originator s.config.participant
      (.ok (), { r with
        state := { s with arbitrator := a, participants := s.participants.insert ssrc p } })

def setUp (ssrc : Ssrc) : Run → Answer :=
  withParticipant ssrc fun p r =>
    let t := Participant.callInitialized ⟨p, {}⟩
    let r := setParticipant ssrc t.machine r
    match Arbitrator.callInitialized ssrc ⟨r.state.arbitrator, t.out⟩ with
    | .error e => refuse e r
    | .ok t => (.ok (), dispatch t.out (setArbitrator t.machine r))

/-- The call is set up at every one of the given parties, in order, as long as none is refused. -/
def setUpEach : List Ssrc → Run → Answer
  | [], r => (.ok (), r)
  | ssrc :: rest, r =>
    match setUp ssrc r with
    | (.ok (), r) => setUpEach rest r
    | refused => refused

def setUpAll (r : Run) : Answer := setUpEach r.state.participants.ssrcs r

/-- The call is established with a party. One that is granted the floor with it gets it without
asking. -/
def establish (ssrc : Ssrc) (granted : Bool) : Run → Answer :=
  withParticipant ssrc fun p r =>
    let t := Participant.callEstablished granted p.priority ⟨p, {}⟩
    let r := setParticipant ssrc t.machine r
    if granted then
      match Arbitrator.implicitFloorRequest ssrc ⟨r.state.arbitrator, t.out⟩ with
      | .error e => refuse e r
      | .ok t => (.ok (), dispatch t.out (setArbitrator t.machine r))
    else (.ok (), dispatch t.out r)

def clientRelease (ssrc : Ssrc) : Run → Answer :=
  whenActive fun r =>
    match Arbitrator.clientRelease ssrc ⟨r.state.arbitrator, {}⟩ with
    | .error e => refuse e r
    | .ok t =>
      let r := setArbitrator t.machine r
      match r.state.participants.get? ssrc with
      | none => (.ok (), dispatch t.out r)
      | some p =>
        let out := (Participant.beginRelease ⟨p, t.out⟩).out
        let s := r.state
        (.ok (), dispatch out
          { r with state := { s with participants := s.participants.erase ssrc } })

/-- Every participant of the roster takes its turn, in ascending order, into one outbox. -/
def releaseEach : List Ssrc → Roster Participant → Outbox → Roster Participant × Outbox
  | [], participants, out => (participants, out)
  | ssrc :: rest, participants, out =>
    match participants.get? ssrc with
    | none => releaseEach rest participants out
    | some p =>
      let t := Participant.beginRelease ⟨p, out⟩
      releaseEach rest (participants.modify ssrc fun _ => t.machine) t.out

/-- The arbitrator and every participant begin to take the call down. -/
def beginRelease (r : Run) : Run :=
  let t := Arbitrator.beginRelease ⟨r.state.arbitrator, {}⟩
  let (participants, out) :=
    releaseEach r.state.participants.ssrcs r.state.participants t.out
  let s := r.state
  dispatch out { r with state := { s with arbitrator := t.machine, participants := participants } }

/-- The call is down: nothing arrives any more. -/
def finishRelease (r : Run) : Run :=
  let t := Arbitrator.finishRelease ⟨r.state.arbitrator, {}⟩
  let s := r.state
  let r := dispatch t.out
    { r with
      state := { s with
        arbitrator := t.machine
        participants := s.participants.mapWith fun _ p => p.finishRelease } }
  let s := r.state
  tell (.callReleased s.callId)
    { r with state := { s with scheduler := s.scheduler.clear, active := false } }

/-- Take the call down. Whatever is due now still arrives; after that nothing does. -/
def release (r : Run) : Run :=
  if !r.state.active then r else finishRelease (runUntilIdle (beginRelease r))

inductive Operation where
  | join (ssrc : Ssrc) (priority : Priority) (originator : Bool)
  | setUp (ssrc : Ssrc)
  | setUpAll
  | establish (ssrc : Ssrc) (granted : Bool)
  | push (ssrc : Ssrc)
  | releaseTalk (ssrc : Ssrc)
  | accept (ssrc : Ssrc)
  | askPosition (ssrc : Ssrc)
  | setDual (ssrc : Ssrc) (on : Bool)
  | setIndicator (ssrc : Ssrc) (wanted : Option Indicator)
  | leave (ssrc : Ssrc)
  | release
  | runUntilIdle
  | advanceTo (t : Nat)
  | advanceBy (delta : Nat)
  deriving DecidableEq, Repr

def perform : Operation → Run → Answer
  | .join ssrc priority originator, r => Session.join ssrc priority originator r
  | .setUp ssrc, r => Session.setUp ssrc r
  | .setUpAll, r => Session.setUpAll r
  | .establish ssrc granted, r => Session.establish ssrc granted r
  | .push ssrc, r => act .push ssrc r
  | .releaseTalk ssrc, r => act .release ssrc r
  | .accept ssrc, r => act .accept ssrc r
  | .askPosition ssrc, r => act .askPosition ssrc r
  | .setDual ssrc on, r => act (.setDual on) ssrc r
  | .setIndicator ssrc wanted, r => act (.setIndicator wanted) ssrc r
  | .leave ssrc, r => clientRelease ssrc r
  | .release, r => (.ok (), Session.release r)
  | .runUntilIdle, r => (.ok (), Session.runUntilIdle r)
  | .advanceTo t, r => (.ok (), Session.advanceTo t r)
  | .advanceBy delta, r => (.ok (), Session.advanceBy delta r)

end Session
end FloorControl
