import FloorControl.Server

/-!
# Scenarios

A scenario is a call that is played from beginning to end: who takes part in it, who does what at
which moment, and when it is over. Five are named. Playing one needs no real time, because every
moment is logical.
-/

namespace FloorControl

inductive ScenarioName where
  | preempt
  | queue
  | maxDuration
  | broadcast
  | dual
  deriving DecidableEq, Repr

instance : Vocabulary ScenarioName where
  all := [.preempt, .queue, .maxDuration, .broadcast, .dual]
  word
    | .preempt => "preempt"
    | .queue => "queue"
    | .maxDuration => "max-duration"
    | .broadcast => "broadcast"
    | .dual => "dual"
  mem_all a := by cases a <;> decide
  word_injective a b := by cases a <;> cases b <;> decide

structure Party where
  ssrc : Ssrc
  priority : Priority
  originator : Bool := false
  deriving DecidableEq, Repr

structure ScriptLine where
  time : Nat
  operation : Session.Operation
  deriving DecidableEq, Repr

structure Scenario where
  callType : CallType := .basic
  config : SessionConfig
  parties : List Party
  /-- What is done, in order of time. -/
  script : List ScriptLine
  /-- The moment at which the scenario is over. -/
  ending : Nat
  deriving DecidableEq, Repr

namespace Scenario

/-- A stronger request takes the floor from a talker. -/
def preempt (config : SessionConfig) : Scenario where
  config := config
  parties := [⟨100, 3, true⟩, ⟨200, 5, false⟩, ⟨300, 1, false⟩]
  script :=
    [⟨0, .setIndicator 200 (some .emergency)⟩, ⟨0, .push 100⟩, ⟨200, .push 200⟩,
      ⟨1500, .releaseTalk 200⟩]
  ending := 2000

/-- Three parties of one priority talk one after the other. -/
def queue (config : SessionConfig) : Scenario where
  config := config
  parties := [⟨100, 3, true⟩, ⟨200, 3, false⟩, ⟨300, 3, false⟩]
  script :=
    [⟨0, .push 100⟩, ⟨10, .push 200⟩, ⟨20, .push 300⟩, ⟨100, .askPosition 300⟩,
      ⟨500, .releaseTalk 100⟩, ⟨600, .accept 200⟩, ⟨900, .releaseTalk 200⟩]
  ending := 4000

/-- A talk lasts too long, the next party does not accept the floor, and the third one leaves. -/
def maxDuration (config : SessionConfig) : Scenario where
  config := { config with arbitrator := { config.arbitrator with t2 := 1000 } }
  parties := [⟨100, 1, true⟩, ⟨200, 1, false⟩, ⟨300, 1, false⟩]
  script := [⟨0, .push 100⟩, ⟨10, .push 200⟩, ⟨20, .leave 300⟩]
  ending := 4000

/-- In a broadcast call only the originator may talk. -/
def broadcast (config : SessionConfig) : Scenario where
  callType := .broadcast
  config := config
  parties := [⟨100, 1, true⟩, ⟨200, 1, false⟩]
  script := [⟨0, .push 200⟩, ⟨10, .push 100⟩, ⟨500, .releaseTalk 100⟩]
  ending := 1000

/-- A second talker talks over the first one, and takes its place when that one is done. -/
def dual (config : SessionConfig) : Scenario where
  config :=
    { config with
      arbitrator := { config.arbitrator with dualFloorSupported := true, ackRequired := true } }
  parties := [⟨100, 1, true⟩, ⟨200, 9, false⟩, ⟨300, 1, false⟩]
  script :=
    [⟨0, .push 100⟩, ⟨0, .setDual 200 true⟩, ⟨100, .push 200⟩, ⟨400, .releaseTalk 100⟩,
      ⟨800, .releaseTalk 200⟩]
  ending := 1500

def ofName : ScenarioName → SessionConfig → Scenario
  | .preempt => preempt
  | .queue => queue
  | .maxDuration => maxDuration
  | .broadcast => broadcast
  | .dual => dual

def act (id : CallId) (operation : Session.Operation) (r : Server.Run) :
    Except FloorError Server.Run :=
  match Server.withCall id (Session.perform operation) r with
  | (.ok (.ok ()), r) => .ok r
  | (.ok (.error e), _) => .error e
  | (.error e, _) => .error e

/-- Create the call on a new server, and bring everybody into it. -/
def setUp (s : Scenario) : Except FloorError (CallId × Server.Run) :=
  match Server.createCall s.callType (Server.subscribe ⟨Server.create s.config, []⟩) with
  | (.error e, _) => .error e
  | (.ok id, r) => do
    let r ← s.parties.foldlM (fun r p => act id (.join p.ssrc p.priority p.originator) r) r
    let r ← act id .setUpAll r
    return (id, ← act id .runUntilIdle r)

def follow (id : CallId) (r : Server.Run) (line : ScriptLine) : Except FloorError Server.Run := do
  return Server.advanceBy 0 (← act id line.operation (Server.advanceTo line.time r))

def play (s : Scenario) : Except FloorError (CallId × Server.Run) := do
  let (id, r) ← s.setUp
  return (id, Server.advanceTo s.ending (← s.script.foldlM (follow id) r))

end Scenario
end FloorControl
