import FloorControl.Simulator

/-!
# The command line

Reads the file that the arguments name, runs the simulator and prints what it says. A bad command
line ends with code 2, any other error with code 1.
-/

namespace FloorControl.Main

def fileFault : IO.Error → FileFault
  | .noFileOrDirectory .. => .missing
  | .permissionDenied .. => .denied
  | .inappropriateType .. => .directory
  | e => .other s!"{e}"

def fileText (path : String) : IO (Except FileFault String) := do
  try
    match String.fromUTF8? (← IO.FS.readBinFile path) with
    | some text => return .ok text
    | none => return .error .notText
  catch e => return .error (fileFault e)

def printAll (lines : List String) : IO Unit := do
  lines.forM fun line => IO.println line
  (← IO.getStdout).flush

def run (a : Arguments) : IO UInt32 := do
  let file ←
    match a.configPath with
    | some path => fileText path
    | none => pure (.error .missing)
  match Simulator.run a fun _ => file with
  | .error e =>
    IO.eprintln s!"✗ {e.message}"
    return 1
  | .ok transcript =>
    printAll transcript.heading
    IO.sleep (UInt32.ofNat transcript.pause)
    printAll transcript.body
    return 0

end FloorControl.Main

def main (arguments : List String) : IO UInt32 :=
  match FloorControl.Arguments.parse? arguments with
  | some a => FloorControl.Main.run a
  | none => do
    IO.eprintln FloorControl.Arguments.usage
    return 2
