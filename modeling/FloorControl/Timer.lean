import FloorControl.Identity

/-!
# Timers and tickets

A timer does not run by itself. Starting it draws a ticket, which comes back to the timer's owner
when it is due, and the timer accepts only the ticket of its latest start, and only while it runs.
Stopping and restarting need not find the old ticket: they move the timer on to a new generation,
in which the old ticket is worth nothing.
-/

namespace FloorControl

/-- The timers of the protocol; the first six are the arbitrator's. -/
inductive TimerId where
  | t1
  | t2
  | t3
  | t4
  | t7
  | t20
  | t100
  | t101
  | t104
  | t132
  deriving DecidableEq, Repr

instance : Vocabulary TimerId where
  all := [.t1, .t2, .t3, .t4, .t7, .t20, .t100, .t101, .t104, .t132]
  word
    | .t1 => "T1"
    | .t2 => "T2"
    | .t3 => "T3"
    | .t4 => "T4"
    | .t7 => "T7"
    | .t20 => "T20"
    | .t100 => "T100"
    | .t101 => "T101"
    | .t104 => "T104"
    | .t132 => "T132"
  mem_all a := by cases a <;> decide
  word_injective a b := by cases a <;> cases b <;> decide

/-- One end of a call: its arbitrator, or the participant with the given SSRC. It sends and
receives messages, and it owns timers. -/
inductive Endpoint where
  | arbitrator
  | participant (ssrc : Ssrc)
  deriving DecidableEq, Repr

/-- What comes back when a timer is due. -/
structure Ticket where
  owner : Endpoint
  id : TimerId
  generation : Nat
  deriving DecidableEq, Repr

structure Timer where
  owner : Endpoint
  id : TimerId
  /-- The time between a start and its ticket, in milliseconds. -/
  delay : Nat
  generation : Nat := 0
  running : Bool := false
  deriving DecidableEq, Repr

namespace Timer

def start (t : Timer) : Timer := { t with generation := t.generation + 1, running := true }

def stop (t : Timer) : Timer :=
  if t.running then { t with generation := t.generation + 1, running := false } else t

def ticket (t : Timer) : Ticket := ⟨t.owner, t.id, t.generation⟩

def accepts (t : Timer) (ticket : Ticket) : Bool := t.running && ticket = t.ticket

/-- The timer after its ticket was accepted: it rests, in the same generation. -/
def rest (t : Timer) : Timer := { t with running := false }

/-- Offer a ticket to the timer, which rests if it accepts it. -/
def offer (ticket : Ticket) (t : Timer) : Timer := if t.accepts ticket then t.rest else t

@[simp] theorem running_start (t : Timer) : t.start.running = true := rfl

@[simp] theorem running_stop (t : Timer) : t.stop.running = false := by
  simp only [stop]; split <;> simp_all

@[simp] theorem running_rest (t : Timer) : t.rest.running = false := rfl

theorem generation_le_stop (t : Timer) : t.generation ≤ t.stop.generation := by
  simp only [stop]; split <;> simp

theorem accepts_iff (t : Timer) (k : Ticket) :
    t.accepts k = true ↔ t.running = true ∧ k = t.ticket := by
  simp [accepts]

theorem accepts_start (t : Timer) : t.start.accepts t.start.ticket = true := by
  simp [accepts]

theorem not_accepts_stop (t : Timer) (k : Ticket) : t.stop.accepts k = false := by
  simp [accepts]

/-- A ticket is accepted once: the timer then rests. -/
theorem not_accepts_offer (t : Timer) (k : Ticket) : (t.offer k).accepts k = false := by
  simp only [offer]
  split
  · simp [accepts]
  · next h => simpa using h

end Timer
end FloorControl
