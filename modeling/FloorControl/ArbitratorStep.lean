import FloorControl.FloorTransfer

/-!
# What the arbitrator does

The answers of the arbitrator to everything that can happen to it: parties that come, are ready
and leave, messages, timers, and the two steps by which a call is taken down. `Arbitrator.handle`
collects them; only the first four can be refused, and a refusal changes nothing.
-/

namespace FloorControl.Arbitrator

/-- Enter a party in the roster. In a broadcast call only the originator may talk. -/
def addParticipant (ssrc : Ssrc) (priority : Priority) (originator : Bool) (a : Arbitrator) :
    Except FloorError Arbitrator :=
  if a.roster.contains ssrc then .error (.duplicateParticipant ssrc)
  else
    let receiveOnly := a.callType = .broadcast && !originator
    .ok { a with roster := a.roster.insert ssrc { priority, originator, receiveOnly } }

/-- The call is set up at a party. One that comes late is told who has the floor. -/
def callInitialized (ssrc : Ssrc) (t : Turn Arbitrator) : Except FloorError (Turn Arbitrator) :=
  if !t.machine.roster.contains ssrc then .error (.participantNotFound ssrc)
  else
    let t := t.update fun a =>
      { a with roster := a.roster.modify ssrc fun proxy => { proxy with ready := true } }
    .ok <|
      match t.machine.state with
      | .startStop => checkReady (moveTo .initialising t)
      | .initialising => checkReady t
      | .idle => sendTo ssrc t.machine.idleMessage t
      | .taken | .pendingRevoke =>
        match t.machine.holder with
        | some h => sendTo ssrc (t.machine.takenMessage h.ssrc) t
        | none => t
      | .releasing => t

/-- A party is to have the floor without asking: at once if it is idle, or as soon as everybody is
ready. -/
def implicitFloorRequest (ssrc : Ssrc) (t : Turn Arbitrator) :
    Except FloorError (Turn Arbitrator) :=
  if !t.machine.roster.contains ssrc then .error (.participantNotFound ssrc)
  else
    .ok <|
      match t.machine.state with
      | .idle => grantImplicit ssrc t
      | .initialising => t.update fun a => { a with implicitRequest := some ssrc }
      | .startStop | .taken | .pendingRevoke | .releasing => t

/-- Empty every place of a party but the holder's. -/
def forget (ssrc : Ssrc) (a : Arbitrator) : Arbitrator :=
  { a with
    queue := a.queue.remove ssrc
    preemptor := a.preemptor.filter (·.ssrc ≠ ssrc)
    implicitRequest := a.implicitRequest.filter (· ≠ ssrc)
    dual := if a.dual.isTalker ssrc then a.dual.vacate else a.dual }

/-- A party leaves the call. If it had the floor, the next one gets it. -/
def clientRelease (ssrc : Ssrc) (t : Turn Arbitrator) : Except FloorError (Turn Arbitrator) :=
  if !t.machine.roster.contains ssrc then .error (.participantNotFound ssrc)
  else
    let t := t.update fun a => forget ssrc { a with roster := a.roster.erase ssrc }
    let t := if t.machine.isHolder ssrc && t.machine.occupied then endHolder t else refreshT4 t
    .ok (if t.machine.state = .initialising then checkReady t else t)

/-- A request while somebody has the floor. One that was sent before gets its answer again. A
request that preempts the holder gets the second place, if it asks for it and may have it; else the
holder is told to give way, or was told so before, and the strongest such request is remembered.
All others wait or are turned down. -/
def requestWhileOccupied (r : Request) (receiveOnly : Bool) (t : Turn Arbitrator) :
    Turn Arbitrator :=
  let a := t.machine
  match a.holder.filter (·.ssrc = r.ssrc) with
  | some h => sendTo h.ssrc (a.grantedMessage h) t
  | none =>
    if a.dual.isTalker r.ssrc then onDual DualFloor.resendGrant t
    else
      match a.queue.position? r.ssrc with
      | some position => sendPosition r.ssrc position t
      | none =>
        match a.preemptor.filter (·.ssrc = r.ssrc) with
        | some p => sendPreemptorPosition p t
        | none =>
          if receiveOnly then deny r.ssrc .receiveOnly t
          else if a.wouldPreempt r.indicator r.priority then
            if r.dual && a.config.dualFloorSupported && !a.dual.started && a.state = .taken then
              onDual (DualFloor.grant r.talker a.roster.ssrcs) t
            else
              match a.state, a.preemptor with
              | .taken, previous =>
                let t :=
                  match previous with
                  | some p => queueOrDeny p true t
                  | none => t
                revokeHolder .preempted (t.update fun a => { a with preemptor := some r.talker })
              | .pendingRevoke, none => t.update fun a => { a with preemptor := some r.talker }
              | .pendingRevoke, some p =>
                if r.talker.preempts p then
                  queueOrDeny p true (t.update fun a => { a with preemptor := some r.talker })
                else queueOrDeny r.talker r.queueing t
              | _, _ => queueOrDeny r.talker r.queueing t
          else queueOrDeny r.talker r.queueing t

/-- A request for the floor. Requests of strangers are not answered. -/
def receiveRequest (r : Request) (t : Turn Arbitrator) : Turn Arbitrator :=
  match t.machine.roster.get? r.ssrc with
  | none => t
  | some proxy =>
    match t.machine.state with
    | .idle =>
      if proxy.receiveOnly then deny r.ssrc .receiveOnly t else grant r.talker t
    | .taken | .pendingRevoke => requestWhileOccupied r proxy.receiveOnly t
    | .startStop | .initialising | .releasing => t

def sendTaken (ssrc : Ssrc) (t : Turn Arbitrator) : Turn Arbitrator :=
  match t.machine.holder with
  | some h => sendTo ssrc (t.machine.takenMessage h.ssrc) t
  | none => t

/-- A party gives the floor back, or its second place, or stops waiting. One that had nothing to
give back is told how the floor stands. -/
def receiveRelease (ssrc : Ssrc) (t : Turn Arbitrator) : Turn Arbitrator :=
  if !t.machine.occupied then
    if t.machine.state = .idle then sendTo ssrc t.machine.idleMessage t else t
  else if t.machine.isHolder ssrc then endHolder t
  else if t.machine.dual.isTalker ssrc then
    let t := t.update fun a => { a with dual := a.dual.vacate }
    match t.machine.holder with
    | some h => broadcast (t.machine.takenMessage h.ssrc) t
    | none => t
  else
    let t := t.update fun a =>
      { a with
        queue := a.queue.remove ssrc
        preemptor := a.preemptor.filter (·.ssrc ≠ ssrc) }
    refreshT4 (sendTaken ssrc t)

def receiveQueuePositionRequest (ssrc : Ssrc) (t : Turn Arbitrator) : Turn Arbitrator :=
  match t.machine.queue.position? ssrc with
  | some position => sendPosition ssrc position t
  | none =>
    match t.machine.preemptor.filter (·.ssrc = ssrc) with
    | some p => sendPreemptorPosition p t
    | none => t

/-- An acknowledgement; the only one that matters is the second talker's, of its grant. -/
def receiveAck (ssrc : Ssrc) (acked : MessageKind) (a : Arbitrator) : Arbitrator :=
  if acked = .granted then { a with dual := a.dual.acknowledge ssrc } else a

/-- A message comes in. Messages that are meant for participants are dropped. -/
def receive (message : Message) (t : Turn Arbitrator) : Turn Arbitrator :=
  match message with
  | .request wish => receiveRequest wish t
  | .release ssrc => receiveRelease ssrc t
  | .queuePositionRequest ssrc => receiveQueuePositionRequest ssrc t
  | .ack ssrc acked => t.update (receiveAck ssrc acked)
  | .granted .. | .denied .. | .idle .. | .taken .. | .revoke .. | .queuePositionInfo .. => t

def expireT1 (t : Turn Arbitrator) : Turn Arbitrator :=
  match t.machine.state, t.machine.holder with
  | .pendingRevoke, some h =>
    startT1 (sendTo h.ssrc (t.machine.revokeMessage h.ssrc t.machine.revokeCause) t)
  | _, _ => t

def expireT2 (t : Turn Arbitrator) : Turn Arbitrator :=
  if t.machine.state = .taken then revokeHolder .maxDuration t else t

def expireT3 (t : Turn Arbitrator) : Turn Arbitrator :=
  if t.machine.state = .pendingRevoke then endHolder t else t

def expireT4 (t : Turn Arbitrator) : Turn Arbitrator :=
  refreshT4 ((t.machine.queue.entries.zipIdx 1).foldl
    (fun t (entry, position) => sendPosition entry.ssrc position t) t)

/-- T7: that the floor is idle is told again, until it was told often enough. -/
def expireT7 (t : Turn Arbitrator) : Turn Arbitrator :=
  if t.machine.state = .idle then
    let arrives := t.machine.c7.arrives
    let t := t.update fun a => { a with c7 := a.c7.increment }
    if arrives then t else startT7 (broadcast t.machine.idleMessage t)
  else t

/-- T20: the second talker's grant is sent again, until it was sent often enough; then the second
talker is told to give way. -/
def expireT20 (ticket : Ticket) (t : Turn Arbitrator) : Turn Arbitrator :=
  let (outcome, inner) := DualFloor.expire ticket ⟨t.machine.dual, t.out⟩
  let t : Turn Arbitrator := ⟨{ t.machine with dual := inner.machine }, inner.out⟩
  match outcome with
  | .exhausted who =>
    (sendTo who.ssrc (t.machine.revokeMessage who.ssrc .noResources) t).tell
      (.failure t.machine.callId who.ssrc .dualGrantUnacknowledged)
  | .retransmitted | .ignored => t

/-- A ticket comes due. It counts only if the timer that it names accepts it, which then rests. -/
def expire (ticket : Ticket) (t : Turn Arbitrator) : Turn Arbitrator :=
  match ticket.id with
  | .t1 =>
    if t.machine.t1.accepts ticket then
      expireT1 (t.update fun a => { a with t1 := a.t1.rest })
    else t
  | .t2 =>
    if t.machine.t2.accepts ticket then
      expireT2 (t.update fun a => { a with t2 := a.t2.rest })
    else t
  | .t3 =>
    if t.machine.t3.accepts ticket then
      expireT3 (t.update fun a => { a with t3 := a.t3.rest })
    else t
  | .t4 =>
    if t.machine.t4.accepts ticket then
      expireT4 (t.update fun a => { a with t4 := a.t4.rest })
    else t
  | .t7 =>
    if t.machine.t7.accepts ticket then
      expireT7 (t.update fun a => { a with t7 := a.t7.rest })
    else t
  | .t20 => expireT20 ticket t
  | .t100 | .t101 | .t104 | .t132 => t

def revokeForRelease (who : Option Talker) (t : Turn Arbitrator) : Turn Arbitrator :=
  match who with
  | some h => sendTo h.ssrc (t.machine.revokeMessage h.ssrc .callReleased) t
  | none => t

/-- Take the call down: the talkers are told to stop and those that wait are turned down. -/
def beginRelease (t : Turn Arbitrator) : Turn Arbitrator :=
  let a := t.machine
  let t := t.update fun a =>
    { a.stopTimers with
      holder := none, preemptor := none, implicitRequest := none
      dual := a.stopTimers.dual.vacate
      queue := a.queue.clear }
  let t := revokeForRelease a.dual.talker (revokeForRelease a.holder t)
  let t :=
    match a.preemptor with
    | some p => deny p.ssrc .callReleased t
    | none => t
  let t := a.queue.entries.foldl (fun t entry => deny entry.ssrc .callReleased t) t
  moveTo .releasing t

def finishRelease (t : Turn Arbitrator) : Turn Arbitrator :=
  if t.machine.state = .releasing then
    moveTo .startStop (t.update fun a => { a with roster := .empty })
  else t

inductive Input where
  | add (ssrc : Ssrc) (priority : Priority) (originator : Bool)
  | initialized (ssrc : Ssrc)
  | implicitRequest (ssrc : Ssrc)
  | leave (ssrc : Ssrc)
  | receive (message : Message)
  | expire (ticket : Ticket)
  | beginRelease
  | finishRelease
  | stopTimers
  deriving DecidableEq, Repr

def handle (input : Input) (a : Arbitrator) : Except FloorError (Turn Arbitrator) :=
  match input with
  | .add ssrc priority originator => (a.addParticipant ssrc priority originator).map (⟨·, {}⟩)
  | .initialized ssrc => callInitialized ssrc ⟨a, {}⟩
  | .implicitRequest ssrc => implicitFloorRequest ssrc ⟨a, {}⟩
  | .leave ssrc => clientRelease ssrc ⟨a, {}⟩
  | .receive message => .ok (receive message ⟨a, {}⟩)
  | .expire ticket => .ok (expire ticket ⟨a, {}⟩)
  | .beginRelease => .ok (beginRelease ⟨a, {}⟩)
  | .finishRelease => .ok (finishRelease ⟨a, {}⟩)
  | .stopTimers => .ok ⟨a.stopTimers, {}⟩

end FloorControl.Arbitrator
