import FloorControl.Arbitrator

/-!
# How the floor changes hands

The steps from which every decision of the arbitrator is put together: changing the state with the
timers that belong to it, giving the floor to a party, telling its holder to give way, and finding
the next holder when the floor comes back. The second talker comes first, then the preemptor, then
the queue.
-/

namespace FloorControl.Arbitrator

def stopStateTimers (state : ArbitratorState) (a : Arbitrator) : Arbitrator :=
  match state with
  | .idle => { a with t7 := a.t7.stop }
  | .taken => { a with t2 := a.t2.stop }
  | .pendingRevoke => { a with t1 := a.t1.stop, t3 := a.t3.stop }
  | .startStop | .initialising | .releasing => a

def startStateTimers (t : Turn Arbitrator) : Turn Arbitrator :=
  match t.machine.state with
  | .idle => startT7 (t.update fun a => { a with t4 := a.t4.stop, c7 := a.c7.reset })
  | .pendingRevoke => startT3 (startT1 t)
  | .startStop | .initialising | .taken | .releasing => t

/-- Change the state. Nothing happens in the state that is there already. -/
def moveTo (next : ArbitratorState) (t : Turn Arbitrator) : Turn Arbitrator :=
  let before := t.machine.state
  if before = next then t
  else
    let t := t.update fun a => { stopStateTimers before a with state := next }
    startStateTimers
      (t.tell (.arbitratorMoved t.machine.callId t.machine.config.ssrc before next))

/-- Keep T4 running exactly while the floor is occupied and somebody waits. -/
def refreshT4 (t : Turn Arbitrator) : Turn Arbitrator :=
  if t.machine.occupied && !t.machine.queue.isEmpty then
    if t.machine.t4.running then t else startT4 t
  else t.update fun a => { a with t4 := a.t4.stop }

def grant (who : Talker) (t : Turn Arbitrator) : Turn Arbitrator :=
  let t := t.update fun a => { a with queue := a.queue.remove who.ssrc, holder := some who }
  let t := sendTo who.ssrc (t.machine.grantedMessage who) t
  let t := broadcastExcept (some who.ssrc) (t.machine.takenMessage who.ssrc) t
  refreshT4 (moveTo .taken (startT2 t))

/-- Give the floor to a party that has not asked in person, with the standing of its call. A party
that has left or may only listen does not get it. -/
def grantImplicit (ssrc : Ssrc) (t : Turn Arbitrator) : Turn Arbitrator :=
  match t.machine.roster.get? ssrc with
  | none => t
  | some proxy =>
    if proxy.receiveOnly then t
    else grant ⟨ssrc, proxy.priority, t.machine.callType.indicator⟩ t

/-- Let the floor be idle, unless a party was promised it. -/
def becomeIdle (t : Turn Arbitrator) : Turn Arbitrator :=
  if t.machine.state = .idle then t
  else
    let t := moveTo .idle t
    match t.machine.implicitRequest with
    | none => t
    | some ssrc => grantImplicit ssrc (t.update fun a => { a with implicitRequest := none })

/-- The floor becomes idle as soon as every party is ready. -/
def checkReady (t : Turn Arbitrator) : Turn Arbitrator :=
  if t.machine.roster.values.all (·.ready) then
    becomeIdle (broadcast t.machine.idleMessage t)
  else t

def revokeHolder (cause : RevokeCause) (t : Turn Arbitrator) : Turn Arbitrator :=
  match t.machine.holder with
  | none => t
  | some h =>
    let t := t.update fun a => { a with revokeCause := cause }
    moveTo .pendingRevoke (sendTo h.ssrc (t.machine.revokeMessage h.ssrc cause) t)

/-- Let a party wait, if it is willing to, waiting is supported and there is room; turn it down
otherwise. -/
def queueOrDeny (who : Talker) (willing : Bool) (t : Turn Arbitrator) : Turn Arbitrator :=
  if t.machine.config.queueingSupported && willing then
    match t.machine.queue.enqueue who with
    | .ok (queue, position) =>
      refreshT4 (sendPosition who.ssrc position (t.update fun a => { a with queue := queue }))
    | .error _ => deny who.ssrc .noResources t
  else deny who.ssrc .anotherUserHasPermission t

/-- Tell the former holder that the floor is idle for it. -/
def dismiss (former : Option Talker) (t : Turn Arbitrator) : Turn Arbitrator :=
  match former with
  | none => t
  | some h => sendTo h.ssrc t.machine.idleMessage t

/-- The second talker becomes the holder. A preemptor now has to preempt the new holder, and waits
like everybody else if it does not. -/
def promote (former : Option Talker) (second : Talker) (t : Turn Arbitrator) : Turn Arbitrator :=
  let t := dismiss former t
  let t := t.update fun a => { a with holder := some second }
  let t := broadcastExcept (some second.ssrc) (t.machine.takenMessage second.ssrc) t
  let t := refreshT4 (moveTo .taken (startT2 t))
  match t.machine.preemptor with
  | none => t
  | some p =>
    if p.preempts second then revokeHolder .preempted t
    else queueOrDeny p true (t.update fun a => { a with preemptor := none })

/-- The next party to have the floor, with the places after it has left its own. -/
def nextTalker (a : Arbitrator) : Option Talker × Arbitrator :=
  match a.preemptor with
  | some p => (some p, { a with preemptor := none })
  | none =>
    match a.queue.dequeue? with
    | some (entry, queue) => (some entry.talker, { a with queue := queue })
    | none => (none, a)

/-- The holder has given way, or was made to. -/
def endHolder (t : Turn Arbitrator) : Turn Arbitrator :=
  let former := t.machine.holder
  let second := t.machine.dual.talker
  let t := t.update fun a => { a with holder := none, dual := a.dual.vacate }
  match second with
  | some second => promote former second t
  | none =>
    let (next, machine) := nextTalker t.machine
    let t := t.update fun _ => machine
    match next with
    | some who => grant who (dismiss former t)
    | none => becomeIdle (broadcast t.machine.idleMessage t)

end FloorControl.Arbitrator
