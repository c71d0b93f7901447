import FloorControl.Counter
import FloorControl.Outbox

/-!
# The second talker

Where a call allows it, one more party may talk over the present talker. This module keeps that
second place: who has it, and the grant that is sent again and again until it is acknowledged or
has been sent often enough.
-/

namespace FloorControl

structure DualFloor where
  /-- The longest talk, which grants tell. -/
  duration : UInt64
  ackRequired : Bool
  talker : Option Talker := none
  t20 : Timer
  c20 : Counter
  deriving DecidableEq, Repr

namespace DualFloor

/-- An empty second place, with the time between two grants and the most grants that are sent. -/
def create (t20Delay c20Limit : Nat) (duration : UInt64) (ackRequired : Bool) : DualFloor where
  duration := duration
  ackRequired := ackRequired
  t20 := { owner := .arbitrator, id := .t20, delay := t20Delay }
  c20 := { id := .c20, limit := c20Limit }

def started (d : DualFloor) : Bool := d.talker.isSome

def isTalker (d : DualFloor) (ssrc : Ssrc) : Bool := d.talker.any (·.ssrc = ssrc)

def grantMessage (d : DualFloor) (who : Talker) : Envelope :=
  ⟨.arbitrator, .participant who.ssrc,
    .granted who.ssrc who.priority d.duration true d.ackRequired⟩

def takenMessage (d : DualFloor) (who : Talker) (receiver : Ssrc) : Envelope :=
  ⟨.arbitrator, .participant receiver, .taken who.ssrc true d.ackRequired⟩

def startT20 (t : Turn DualFloor) : Turn DualFloor :=
  t.start (·.t20) fun timer d => { d with t20 := timer }

/-- Give the second place to a party and tell the others. -/
def grant (who : Talker) (others : List Ssrc) (t : Turn DualFloor) : Turn DualFloor :=
  let t := t.post (t.machine.grantMessage who ::
    (others.filter (· ≠ who.ssrc)).map (t.machine.takenMessage who))
  let t := t.update fun d => { d with c20 := d.c20.reset }
  let t := if t.machine.ackRequired then startT20 t else t
  t.update fun d => { d with talker := some who }

def resendGrant (t : Turn DualFloor) : Turn DualFloor :=
  match t.machine.talker with
  | some who => t.post [t.machine.grantMessage who]
  | none => t

/-- The second talker has received its grant, so it is sent no more. -/
def acknowledge (ssrc : Ssrc) (d : DualFloor) : DualFloor :=
  if d.isTalker ssrc then { d with t20 := d.t20.stop } else d

def stop (d : DualFloor) : DualFloor := { d with t20 := d.t20.stop }

def vacate (d : DualFloor) : DualFloor := { d with t20 := d.t20.stop, talker := none }

/-- What came of a T20 ticket. -/
inductive Expiry where
  /-- The grant was sent once more. -/
  | retransmitted
  /-- The grant was sent often enough; the talker has lost the second place. -/
  | exhausted (talker : Talker)
  /-- The ticket was an old one, or nobody has the second place. -/
  | ignored
  deriving DecidableEq, Repr

def expire (ticket : Ticket) (t : Turn DualFloor) : Expiry × Turn DualFloor :=
  if !t.machine.t20.accepts ticket then (.ignored, t)
  else
    let t := t.update fun d => { d with t20 := d.t20.rest }
    match t.machine.talker with
    | none => (.ignored, t)
    | some who =>
      let arrives := t.machine.c20.arrives
      let t := t.update fun d => { d with c20 := d.c20.increment }
      if arrives then (.exhausted who, t.update fun d => { d with talker := none })
      else (.retransmitted, startT20 (resendGrant t))

end DualFloor
end FloorControl
