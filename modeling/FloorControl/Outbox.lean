import FloorControl.Event

/-!
# One step of a machine

A machine decides and does nothing else: what it wants done in a step, it puts into an outbox of
messages to send, tickets to schedule and events to tell. `Turn` is a machine in the middle of a
step. Nothing is ever taken out of an outbox, so a machine cannot see what comes of its wishes
before its step is over.
-/

namespace FloorControl

structure Envelope where
  sender : Endpoint
  receiver : Endpoint
  message : Message
  deriving DecidableEq, Repr

/-- A ticket that is to come back after `delay` milliseconds. -/
structure Armed where
  ticket : Ticket
  delay : Nat
  deriving DecidableEq, Repr

/-- The wishes of one step, each kind in order. -/
structure Outbox where
  messages : List Envelope := []
  timers : List Armed := []
  events : List FloorEvent := []
  deriving DecidableEq, Repr

namespace Outbox

def isEmpty (o : Outbox) : Bool := o.messages.isEmpty && o.timers.isEmpty && o.events.isEmpty

def messagesTo (receiver : Endpoint) (o : Outbox) : List Message :=
  (o.messages.filter (·.receiver = receiver)).map (·.message)

end Outbox

/-- A machine in the middle of a step. -/
structure Turn (σ : Type) where
  machine : σ
  out : Outbox := {}

namespace Turn

variable {σ : Type}

def update (f : σ → σ) (t : Turn σ) : Turn σ := { t with machine := f t.machine }

def post (envelopes : List Envelope) (t : Turn σ) : Turn σ :=
  { t with out := { t.out with messages := t.out.messages ++ envelopes } }

def tell (event : FloorEvent) (t : Turn σ) : Turn σ :=
  { t with out := { t.out with events := t.out.events ++ [event] } }

def arm (timer : Timer) (t : Turn σ) : Turn σ :=
  { t with out := { t.out with timers := t.out.timers ++ [⟨timer.ticket, timer.delay⟩] } }

/-- Start one of the machine's timers, which `get` reads and `set` writes. -/
def start (get : σ → Timer) (set : Timer → σ → σ) (t : Turn σ) : Turn σ :=
  let timer := (get t.machine).start
  (t.update (set timer)).arm timer

@[simp] theorem machine_update (f : σ → σ) (t : Turn σ) : (t.update f).machine = f t.machine := rfl

@[simp] theorem out_update (f : σ → σ) (t : Turn σ) : (t.update f).out = t.out := rfl

@[simp] theorem machine_post (e : List Envelope) (t : Turn σ) :
    (t.post e).machine = t.machine := rfl

@[simp] theorem machine_tell (e : FloorEvent) (t : Turn σ) : (t.tell e).machine = t.machine := rfl

@[simp] theorem machine_arm (timer : Timer) (t : Turn σ) : (t.arm timer).machine = t.machine := rfl

@[simp] theorem messages_post (e : List Envelope) (t : Turn σ) :
    (t.post e).out.messages = t.out.messages ++ e := rfl

@[simp] theorem messages_tell (e : FloorEvent) (t : Turn σ) :
    (t.tell e).out.messages = t.out.messages := rfl

@[simp] theorem messages_arm (timer : Timer) (t : Turn σ) :
    (t.arm timer).out.messages = t.out.messages := rfl

@[simp] theorem events_post (e : List Envelope) (t : Turn σ) :
    (t.post e).out.events = t.out.events := rfl

@[simp] theorem events_tell (e : FloorEvent) (t : Turn σ) :
    (t.tell e).out.events = t.out.events ++ [e] := rfl

@[simp] theorem events_arm (timer : Timer) (t : Turn σ) :
    (t.arm timer).out.events = t.out.events := rfl

@[simp] theorem timers_post (e : List Envelope) (t : Turn σ) :
    (t.post e).out.timers = t.out.timers := rfl

@[simp] theorem timers_tell (e : FloorEvent) (t : Turn σ) :
    (t.tell e).out.timers = t.out.timers := rfl

@[simp] theorem timers_arm (timer : Timer) (t : Turn σ) :
    (t.arm timer).out.timers = t.out.timers ++ [⟨timer.ticket, timer.delay⟩] := rfl

end Turn
end FloorControl
