import FloorControl.Config
import FloorControl.DualFloor
import FloorControl.Queue
import FloorControl.Roster

/-!
# The arbitrator of a call

One arbitrator decides who may talk in a call. It knows the roster of the call and four kinds of
places: the holder of the floor, the second talker, the party that waits for a revoked holder to
give way, and the queue. This module holds its state, what can be asked of it, and how it speaks to
the parties; how the floor changes hands is in `FloorTransfer`.
-/

namespace FloorControl

/-- What the arbitrator knows of a party. -/
structure Proxy where
  priority : Priority
  originator : Bool
  receiveOnly : Bool
  ready : Bool := false
  deriving DecidableEq, Repr

structure Arbitrator where
  callId : CallId
  callType : CallType
  config : ArbitratorConfig
  state : ArbitratorState := .startStop
  roster : Roster Proxy := .empty
  queue : FloorQueue
  holder : Option Talker := none
  /-- The party that takes the floor when the revoked holder has given way, before the queue. -/
  preemptor : Option Talker := none
  dual : DualFloor
  /-- The party that gets the floor as soon as everybody is ready. -/
  implicitRequest : Option Ssrc := none
  /-- Why the holder was last told to give way. -/
  revokeCause : RevokeCause := .preempted
  t1 : Timer
  t2 : Timer
  t3 : Timer
  t4 : Timer
  t7 : Timer
  c7 : Counter

namespace Arbitrator

def create (callId : CallId) (callType : CallType) (config : ArbitratorConfig) : Arbitrator where
  callId := callId
  callType := callType
  config := config
  queue := { capacity := config.queueCapacity.toNat }
  dual := DualFloor.create config.t20.toNat config.c20Limit.toNat config.t2 config.ackRequired
  t1 := { owner := .arbitrator, id := .t1, delay := config.t1.toNat }
  t2 := { owner := .arbitrator, id := .t2, delay := config.t2.toNat }
  t3 := { owner := .arbitrator, id := .t3, delay := config.t3.toNat }
  t4 := { owner := .arbitrator, id := .t4, delay := config.t4.toNat }
  t7 := { owner := .arbitrator, id := .t7, delay := config.t7.toNat }
  c7 := { id := .c7, limit := config.c7Limit.toNat }

def occupied (a : Arbitrator) : Bool := a.state.occupied

def isHolder (a : Arbitrator) (ssrc : Ssrc) : Bool := a.holder.any (·.ssrc = ssrc)

def isPreemptor (a : Arbitrator) (ssrc : Ssrc) : Bool := a.preemptor.any (·.ssrc = ssrc)

def wouldPreempt (a : Arbitrator) (indicator : Indicator) (priority : Priority) : Bool :=
  a.holder.any fun h => preempts indicator priority h.indicator h.priority

def passesMedia (a : Arbitrator) (ssrc : Ssrc) : Bool :=
  a.occupied && (a.isHolder ssrc || a.dual.isTalker ssrc)

def timers (a : Arbitrator) : List Timer := [a.t1, a.t2, a.t3, a.t4, a.t7, a.dual.t20]

def runningTimers (a : Arbitrator) : List TimerId :=
  (a.timers.filter (·.running)).map (·.id)

def grantedMessage (a : Arbitrator) (who : Talker) : Message :=
  .granted who.ssrc who.priority a.config.t2 false a.config.ackRequired

def takenMessage (a : Arbitrator) (ssrc : Ssrc) : Message :=
  .taken ssrc false a.config.ackRequired

def idleMessage (a : Arbitrator) : Message := .idle a.config.ackRequired

def revokeMessage (a : Arbitrator) (ssrc : Ssrc) (cause : RevokeCause) : Message :=
  .revoke ssrc cause a.config.ackRequired

/-- Send a message to a party, if it is still in the roster. -/
def sendTo (ssrc : Ssrc) (message : Message) (t : Turn Arbitrator) : Turn Arbitrator :=
  if t.machine.roster.contains ssrc then
    t.post [⟨.arbitrator, .participant ssrc, message⟩]
  else t

def broadcastExcept (except : Option Ssrc) (message : Message) (t : Turn Arbitrator) :
    Turn Arbitrator :=
  t.post ((t.machine.roster.ssrcs.filter fun ssrc => some ssrc ≠ except).map fun ssrc =>
    ⟨.arbitrator, .participant ssrc, message⟩)

def broadcast (message : Message) (t : Turn Arbitrator) : Turn Arbitrator :=
  broadcastExcept none message t

def deny (ssrc : Ssrc) (cause : DenyCause) (t : Turn Arbitrator) : Turn Arbitrator :=
  sendTo ssrc (.denied ssrc cause t.machine.config.ackRequired) t

def sendPosition (ssrc : Ssrc) (position : Nat) (t : Turn Arbitrator) : Turn Arbitrator :=
  let priority := ((t.machine.queue.get? ssrc).map (·.priority)).getD 0
  sendTo ssrc (.queuePositionInfo ssrc (UInt64.ofNat position) priority) t

/-- Tell the preemptor its place, which is before the whole queue. -/
def sendPreemptorPosition (who : Talker) (t : Turn Arbitrator) : Turn Arbitrator :=
  sendTo who.ssrc (.queuePositionInfo who.ssrc 1 who.priority) t

def startT1 (t : Turn Arbitrator) : Turn Arbitrator :=
  t.start (·.t1) fun timer a => { a with t1 := timer }

def startT2 (t : Turn Arbitrator) : Turn Arbitrator :=
  t.start (·.t2) fun timer a => { a with t2 := timer }

def startT3 (t : Turn Arbitrator) : Turn Arbitrator :=
  t.start (·.t3) fun timer a => { a with t3 := timer }

def startT4 (t : Turn Arbitrator) : Turn Arbitrator :=
  t.start (·.t4) fun timer a => { a with t4 := timer }

def startT7 (t : Turn Arbitrator) : Turn Arbitrator :=
  t.start (·.t7) fun timer a => { a with t7 := timer }

def onDual (f : Turn DualFloor → Turn DualFloor) (t : Turn Arbitrator) : Turn Arbitrator :=
  let inner := f ⟨t.machine.dual, t.out⟩
  ⟨{ t.machine with dual := inner.machine }, inner.out⟩

def stopTimers (a : Arbitrator) : Arbitrator :=
  { a with
    t1 := a.t1.stop, t2 := a.t2.stop, t3 := a.t3.stop, t4 := a.t4.stop, t7 := a.t7.stop
    dual := a.dual.stop }

end Arbitrator
end FloorControl
