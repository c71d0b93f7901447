import FloorControl.CallIds
import FloorControl.Session

/-!
# The server

A server keeps many calls, which share nothing but the time and the observers. Calls are created
and looked up by number, and moving the server's clock moves the clocks of all its calls, in the
order of their numbers. An observer sees the events of every call from its subscription on.
-/

namespace FloorControl

structure Server where
  config : SessionConfig
  ids : CallIds := {}
  /-- The calls that have not been taken away, in the order of their numbers. -/
  calls : List Session := []
  observers : Nat := 0
  now : Nat := 0

namespace Server

abbrev Run := Observed Server

def create (config : SessionConfig) (ids : CallIds := {}) : Server where
  config := config
  ids := ids

def callIds (s : Server) : List CallId := s.calls.map (·.callId)

def takenCount (s : Server) : Nat := s.calls.countP (·.arbitrator.occupied)

/-- The call of a number. A number that was never handed out is told from one whose call is gone. -/
def call? (s : Server) (id : CallId) : Except FloorError Session :=
  if s.ids.isAllocated id then
    match s.calls.find? (·.callId = id) with
    | some call => .ok call
    | none => .error (.callNotFound id)
  else .error (.callIdOutOfRange id)

/-- Enter one more observer of every call, present and to come. -/
def subscribe (r : Run) : Run :=
  { r with state := { r.state with observers := r.state.observers + 1 } }

def createCall (callType : CallType) (r : Run) : Except FloorError CallId × Run :=
  match r.state.ids.allocate with
  | .error e => (.error e, r)
  | .ok (id, ids) =>
    let s := r.state
    let call := Session.create id callType s.config s.now
    (.ok id, { r with state := { s with ids := ids, calls := s.calls ++ [call] } })

def replaceCall (id : CallId) (call : Session) (s : Server) : Server :=
  { s with calls := s.calls.map fun c => if c.callId = id then call else c }

def withCall {α : Type} (id : CallId) (f : Session.Run → α × Session.Run) (r : Run) :
    Except FloorError α × Run :=
  match r.state.call? id with
  | .error e => (.error e, r)
  | .ok call =>
    let (answer, inner) := f ⟨call, r.log⟩
    (.ok answer, ⟨replaceCall id inner.state r.state, inner.log⟩)

def releaseCall (id : CallId) (r : Run) : Except FloorError Unit × Run :=
  match withCall id (fun call => ((), Session.release call)) r with
  | (.error e, r) => (.error e, r)
  | (.ok (), r) =>
    (.ok (), { r with state :=
      { r.state with calls := r.state.calls.filter (·.callId ≠ id) } })

def advanceEach (t : Nat) : List Session → List TraceEvent → List Session × List TraceEvent
  | [], log => ([], log)
  | call :: rest, log =>
    let moved := Session.advanceTo t ⟨call, log⟩
    let (others, log) := advanceEach t rest moved.log
    (moved.state :: others, log)

/-- Move the clock on to `t`; a moment that is past is ignored. -/
def advanceTo (t : Nat) (r : Run) : Run :=
  if t < r.state.now then r
  else
    let (calls, log) := advanceEach t r.state.calls r.log
    ⟨{ r.state with now := t, calls := calls }, log⟩

def advanceBy (delta : Nat) (r : Run) : Run := advanceTo (Time.after r.state.now delta) r

end Server
end FloorControl
