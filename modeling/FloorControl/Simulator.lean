import FloorControl.Arguments
import FloorControl.ConfigJson
import FloorControl.Report

/-!
# The simulator

The command line as a function: from its arguments, and what the files that they may name hold, to
what is printed. The outer program only reads a file, waits and prints.
-/

namespace FloorControl.Simulator

/-- What is printed before and after the time that the scenario takes. -/
structure Transcript where
  heading : List String
  body : List String
  /-- The time between the two, in milliseconds. -/
  pause : Nat
  deriving DecidableEq, Repr

def Transcript.lines (t : Transcript) : List String := t.heading ++ t.body

def loadFile (files : String → Except FileFault String) (path : String) :
    Except FloorError SessionConfig :=
  match files path with
  | .ok text => SessionConfig.load text
  | .error fault => .error (.config (.unreadable path fault))

/-- The configuration that the arguments ask for. The file has to be usable as it is; a delay among
the arguments goes over it afterwards. -/
def config (a : Arguments) (files : String → Except FileFault String) :
    Except FloorError SessionConfig := do
  let config ←
    match a.configPath with
    | some path => loadFile files path
    | none => pure {}
  return { config with linkDelay := a.linkDelay.getD config.linkDelay }

def run (a : Arguments) (files : String → Except FileFault String) :
    Except FloorError Transcript := do
  let scenario := Scenario.ofName a.scenario (← config a files)
  let (id, r) ← scenario.play
  let call ← r.state.call? id
  return {
    heading := Report.heading id scenario.callType scenario.parties.length
      scenario.config.linkDelay a.realtime
    body := Report.body r.trace a.filter a.json call
    pause := if a.realtime then scenario.ending else 0 }

end FloorControl.Simulator
