import FloorControl.Config
import FloorControl.Counter
import FloorControl.Outbox

/-!
# A participant of a call

One participant stands for one user. It asks for the floor, waits, talks and gives the floor back,
and it keeps track of who talks. Every wait has a timer that ends it: T101 for the answer to a
request, T100 for the confirmation of a release, T104 for the place in the queue, and T132 for the
user who has to accept the floor. `Participant.handle` collects everything that can happen to it.
-/

namespace FloorControl

structure Participant where
  callId : CallId
  ssrc : Ssrc
  callType : CallType
  config : ParticipantConfig
  state : ParticipantState := .startStop
  priority : Priority
  originator : Bool
  /-- Whether requests ask for the second place. -/
  dual : Bool := false
  /-- What requests ask for, if not for what the call type says. -/
  wanted : Option Indicator := none
  /-- Whether it talks in the second place. -/
  overriding : Bool := false
  /-- Whether somebody talks over it. -/
  overridden : Bool := false
  /-- Whether its turn has come and the user has not accepted the floor yet. -/
  grantPending : Bool := false
  released : Bool := false
  talker : Option Ssrc := none
  position : Option UInt64 := none
  t100 : Timer
  t101 : Timer
  t104 : Timer
  t132 : Timer
  c100 : Counter
  c101 : Counter
  c104 : Counter
  deriving DecidableEq, Repr

namespace Participant

def create (callId : CallId) (ssrc : Ssrc) (callType : CallType) (priority : Priority)
    (originator : Bool) (config : ParticipantConfig) : Participant where
  callId := callId
  ssrc := ssrc
  callType := callType
  config := config
  priority := priority
  originator := originator
  t100 := { owner := .participant ssrc, id := .t100, delay := config.t100.toNat }
  t101 := { owner := .participant ssrc, id := .t101, delay := config.t101.toNat }
  t104 := { owner := .participant ssrc, id := .t104, delay := config.t104.toNat }
  t132 := { owner := .participant ssrc, id := .t132, delay := config.t132.toNat }
  c100 := { id := .c100, limit := config.c100Limit.toNat }
  c101 := { id := .c101, limit := config.c101Limit.toNat }
  c104 := { id := .c104, limit := config.c104Limit.toNat }

def receiveOnly (p : Participant) : Bool := p.callType = .broadcast && !p.originator

def indicator (p : Participant) : Indicator := p.wanted.getD p.callType.indicator

def timers (p : Participant) : List Timer := [p.t100, p.t101, p.t104, p.t132]

def runningTimers (p : Participant) : List TimerId := (p.timers.filter (·.running)).map (·.id)

/-- The frame as it leaves the participant, with its sender stamped on it. Without permission no
frame leaves. -/
def stampMedia (p : Participant) (frame : MediaFrame) : Except FloorError MediaFrame :=
  if p.state = .hasPermission then .ok { frame with ssrc := p.ssrc }
  else .error (.noFloorPermission p.ssrc)

def send (message : Message) (t : Turn Participant) : Turn Participant :=
  t.post [⟨.participant t.machine.ssrc, .arbitrator, message⟩]

def requestMessage (p : Participant) : Message :=
  .request ⟨p.ssrc, p.priority, p.indicator, p.dual, p.config.queueing⟩

/-- Change the state. Nothing happens in the state that is there already. -/
def moveTo (next : ParticipantState) (t : Turn Participant) : Turn Participant :=
  let before := t.machine.state
  if before = next then t
  else
    (t.update fun p => { p with state := next }).tell
      (.participantMoved t.machine.callId t.machine.ssrc before next)

def startT100 (t : Turn Participant) : Turn Participant :=
  t.start (·.t100) fun timer p => { p with t100 := timer }

def startT101 (t : Turn Participant) : Turn Participant :=
  t.start (·.t101) fun timer p => { p with t101 := timer }

def startT104 (t : Turn Participant) : Turn Participant :=
  t.start (·.t104) fun timer p => { p with t104 := timer }

def startT132 (t : Turn Participant) : Turn Participant :=
  t.start (·.t132) fun timer p => { p with t132 := timer }

def tellGranted (t : Turn Participant) : Turn Participant :=
  t.tell (.floorGranted t.machine.callId t.machine.ssrc)

def tellDenied (cause : DenyCause) (onSite : Bool) (t : Turn Participant) : Turn Participant :=
  t.tell (.floorDenied t.machine.callId t.machine.ssrc cause onSite)

def tellRevoked (cause : RevokeCause) (t : Turn Participant) : Turn Participant :=
  t.tell (.floorRevoked t.machine.callId t.machine.ssrc cause)

def tellFailure (kind : FailureKind) (t : Turn Participant) : Turn Participant :=
  t.tell (.failure t.machine.callId t.machine.ssrc kind)

def takeFloor (t : Turn Participant) : Turn Participant :=
  tellGranted (moveTo .hasPermission (t.update fun p => { p with talker := some p.ssrc }))

/-- Give the floor back, and wait for the confirmation. -/
def startRelease (t : Turn Participant) : Turn Participant :=
  let t := t.update fun p => { p with overriding := false, overridden := false }
  let t := send (.release t.machine.ssrc) t
  let t := t.update fun p => { p with c100 := p.c100.reset }
  moveTo .pendingRelease (startT100 t)

def leaveQueue (p : Participant) : Participant :=
  { p with t104 := p.t104.stop, t132 := p.t132.stop, grantPending := false, position := none }

def callInitialized (t : Turn Participant) : Turn Participant :=
  if t.machine.state = .startStop then
    moveTo .idle (t.update fun p => { p with released := false })
  else t

def callEstablished (granted : Bool) (priority : Priority) (t : Turn Participant) :
    Turn Participant :=
  let t := t.update fun p => { p with priority := priority }
  if granted && t.machine.state = .idle then takeFloor t else t

def pushToTalk (t : Turn Participant) : Turn Participant :=
  if t.machine.receiveOnly then tellDenied .receiveOnly true t
  else if t.machine.state = .idle then
    let t := send t.machine.requestMessage t
    let t := t.update fun p => { p with c101 := p.c101.reset }
    moveTo .pendingRequest (startT101 t)
  else t

/-- The user is done, or does not want to wait any longer. -/
def releaseToTalk (t : Turn Participant) : Turn Participant :=
  match t.machine.state with
  | .hasPermission => startRelease t
  | .pendingRequest => startRelease (t.update fun p => { p with t101 := p.t101.stop })
  | .queued => startRelease (t.update leaveQueue)
  | .startStop | .idle | .pendingRelease => t

/-- The user accepts the floor that was offered after the wait in the queue. -/
def acceptGrant (t : Turn Participant) : Turn Participant :=
  if t.machine.state = .queued && t.machine.grantPending then
    takeFloor (t.update fun p =>
      { p with grantPending := false, position := none, t132 := p.t132.stop })
  else t

def askQueuePosition (t : Turn Participant) : Turn Participant :=
  if t.machine.state = .queued then
    let t := send (.queuePositionRequest t.machine.ssrc) t
    startT104 (t.update fun p => { p with c104 := p.c104.reset })
  else t

def receivePendingRequest (message : Message) (t : Turn Participant) : Turn Participant :=
  match message with
  | .granted _ _ _ dual _ =>
    takeFloor (t.update fun p => { p with t101 := p.t101.stop, overriding := dual })
  | .denied _ cause _ =>
    tellDenied cause false (moveTo .idle (t.update fun p => { p with t101 := p.t101.stop }))
  | .queuePositionInfo _ position _ =>
    moveTo .queued (t.update fun p => { p with t101 := p.t101.stop, position := some position })
  | .taken ssrc _ _ => t.update fun p => { p with talker := some ssrc }
  | .request .. | .release .. | .idle .. | .revoke .. | .queuePositionRequest .. | .ack .. => t

def receiveQueued (message : Message) (t : Turn Participant) : Turn Participant :=
  match message with
  | .granted .. =>
    if t.machine.grantPending then t
    else
      let t := t.update fun p => { p with grantPending := true, t104 := p.t104.stop }
      (startT132 t).tell (.grantPending t.machine.callId t.machine.ssrc)
  | .denied _ cause _ => tellDenied cause false (moveTo .idle (t.update leaveQueue))
  | .queuePositionInfo _ position _ =>
    t.update fun p => { p with t104 := p.t104.stop, position := some position }
  | .idle .. => moveTo .idle (t.update fun p => { leaveQueue p with talker := none })
  | .revoke _ cause _ =>
    if t.machine.grantPending then startRelease (tellRevoked cause (t.update leaveQueue)) else t
  | .taken ssrc _ _ => t.update fun p => { p with talker := some ssrc }
  | .request .. | .release .. | .queuePositionRequest .. | .ack .. => t

/-- The floor has gone to somebody else, or to nobody. -/
def loseFloor (talker : Option Ssrc) (t : Turn Participant) : Turn Participant :=
  moveTo .idle (t.update fun p =>
    { p with overriding := false, overridden := false, talker := talker })

def receiveHasPermission (message : Message) (t : Turn Participant) : Turn Participant :=
  match message with
  | .revoke _ cause _ => startRelease (tellRevoked cause t)
  | .taken ssrc dual _ =>
    if ssrc = t.machine.ssrc then t.update fun p => { p with overridden := false }
    else if dual then t.update fun p => { p with overridden := true }
    else loseFloor (some ssrc) t
  | .idle .. => loseFloor none t
  | .request .. | .granted .. | .denied .. | .release .. | .queuePositionRequest ..
  | .queuePositionInfo .. | .ack .. => t

def receivePendingRelease (message : Message) (t : Turn Participant) : Turn Participant :=
  match message with
  | .idle .. => moveTo .idle (t.update fun p => { p with t100 := p.t100.stop, talker := none })
  | .taken ssrc _ _ =>
    moveTo .idle (t.update fun p => { p with t100 := p.t100.stop, talker := some ssrc })
  | .denied .. => moveTo .idle (t.update fun p => { p with t100 := p.t100.stop })
  | .request .. | .granted .. | .release .. | .revoke .. | .queuePositionRequest ..
  | .queuePositionInfo .. | .ack .. => t

/-- A message while wanting nothing. A grant that comes after the request was given up is given
back at once. -/
def receiveIdle (message : Message) (t : Turn Participant) : Turn Participant :=
  match message with
  | .granted ssrc .. => if ssrc = t.machine.ssrc then startRelease t else t
  | .taken ssrc _ _ => t.update fun p => { p with talker := some ssrc }
  | .idle .. => t.update fun p => { p with talker := none }
  | .request .. | .denied .. | .release .. | .revoke .. | .queuePositionRequest ..
  | .queuePositionInfo .. | .ack .. => t

def acknowledge (message : Message) (t : Turn Participant) : Turn Participant :=
  if message.requiresAck then send (.ack t.machine.ssrc message.kind) t else t

/-- A message comes in. It is acknowledged before it is looked at; before the call is set up it is
dropped. -/
def receive (message : Message) (t : Turn Participant) : Turn Participant :=
  match t.machine.state with
  | .startStop => t
  | .pendingRequest => receivePendingRequest message (acknowledge message t)
  | .queued => receiveQueued message (acknowledge message t)
  | .hasPermission => receiveHasPermission message (acknowledge message t)
  | .pendingRelease => receivePendingRelease message (acknowledge message t)
  | .idle => receiveIdle message (acknowledge message t)

def expireT101 (t : Turn Participant) : Turn Participant :=
  if t.machine.state = .pendingRequest then
    let arrives := t.machine.c101.arrives
    let t := t.update fun p => { p with c101 := p.c101.increment }
    if arrives then tellFailure .requestUnanswered (moveTo .idle t)
    else startT101 (send t.machine.requestMessage t)
  else t

def expireT100 (t : Turn Participant) : Turn Participant :=
  if t.machine.state = .pendingRelease then
    let arrives := t.machine.c100.arrives
    let t := t.update fun p => { p with c100 := p.c100.increment }
    if arrives then tellFailure .releaseUnconfirmed (moveTo .idle t)
    else startT100 (send (.release t.machine.ssrc) t)
  else t

def expireT104 (t : Turn Participant) : Turn Participant :=
  if t.machine.state = .queued then
    let arrives := t.machine.c104.arrives
    let t := t.update fun p => { p with c104 := p.c104.increment }
    if arrives then tellFailure .queuePositionUnanswered (moveTo .idle (t.update leaveQueue))
    else startT104 (send (.queuePositionRequest t.machine.ssrc) t)
  else t

/-- T132: the user did not accept the floor, so it is given back. -/
def expireT132 (t : Turn Participant) : Turn Participant :=
  if t.machine.grantPending then
    let t := t.update fun p => { p with grantPending := false, position := none }
    startRelease (tellFailure .grantNotAccepted t)
  else t

/-- A ticket comes due. It counts only if the timer that it names accepts it, which then rests. -/
def expire (ticket : Ticket) (t : Turn Participant) : Turn Participant :=
  match ticket.id with
  | .t101 =>
    if t.machine.t101.accepts ticket then
      expireT101 (t.update fun p => { p with t101 := p.t101.rest })
    else t
  | .t100 =>
    if t.machine.t100.accepts ticket then
      expireT100 (t.update fun p => { p with t100 := p.t100.rest })
    else t
  | .t104 =>
    if t.machine.t104.accepts ticket then
      expireT104 (t.update fun p => { p with t104 := p.t104.rest })
    else t
  | .t132 =>
    if t.machine.t132.accepts ticket then
      expireT132 (t.update fun p => { p with t132 := p.t132.rest })
    else t
  | .t1 | .t2 | .t3 | .t4 | .t7 | .t20 => t

def stopTimers (p : Participant) : Participant :=
  { p with
    t100 := p.t100.stop, t101 := p.t101.stop, t104 := p.t104.stop, t132 := p.t132.stop }

def beginRelease (t : Turn Participant) : Turn Participant :=
  moveTo .startStop (t.update fun p =>
    { p.stopTimers with
      grantPending := false, overriding := false, overridden := false
      position := none, talker := none })

def finishRelease (p : Participant) : Participant := { p with released := true }

inductive Input where
  | initialized
  | established (granted : Bool) (priority : Priority)
  | push
  | release
  | accept
  | askPosition
  | setDual (on : Bool)
  | setIndicator (wanted : Option Indicator)
  | receive (message : Message)
  | expire (ticket : Ticket)
  | beginRelease
  | finishRelease
  | stopTimers
  deriving DecidableEq, Repr

def handle (input : Input) (p : Participant) : Turn Participant :=
  match input with
  | .initialized => callInitialized ⟨p, {}⟩
  | .established granted priority => callEstablished granted priority ⟨p, {}⟩
  | .push => pushToTalk ⟨p, {}⟩
  | .release => releaseToTalk ⟨p, {}⟩
  | .accept => acceptGrant ⟨p, {}⟩
  | .askPosition => askQueuePosition ⟨p, {}⟩
  | .setDual on => ⟨{ p with dual := on }, {}⟩
  | .setIndicator wanted => ⟨{ p with wanted := wanted }, {}⟩
  | .receive message => receive message ⟨p, {}⟩
  | .expire ticket => expire ticket ⟨p, {}⟩
  | .beginRelease => beginRelease ⟨p, {}⟩
  | .finishRelease => ⟨p.finishRelease, {}⟩
  | .stopTimers => ⟨p.stopTimers, {}⟩

end Participant
end FloorControl
