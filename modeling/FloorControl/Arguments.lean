import FloorControl.JsonText
import FloorControl.Scenario

/-!
# Arguments of the command line

The command line names one scenario and may hold options, each at most once. Options that take a
value have it as the next argument, behind an equals sign, or, in the short form, right behind the
letter. A value that is an argument of its own does not begin with a hyphen, unless it is one.
Behind two hyphens there are no more options.
-/

namespace FloorControl

structure Arguments where
  scenario : ScenarioName
  configPath : Option String
  /-- The time that a message is on its way, over what the configuration says. -/
  linkDelay : Option UInt64
  /-- A part of the names of the events to show. -/
  filter : Option String
  json : Bool
  realtime : Bool
  deriving DecidableEq, Repr

namespace Arguments

inductive Setting where
  | config
  | linkDelay
  | filter
  deriving DecidableEq, Repr

inductive Flag where
  | json
  | realtime
  deriving DecidableEq, Repr

inductive Token where
  /-- Two hyphens. -/
  | endOfOptions
  | flag (flag : Flag)
  /-- An option that takes a value, with the value if it has it with it. -/
  | setting (setting : Setting) (value : Option String)
  | operand (text : String)
  /-- An option that does not exist or has a value that it does not take. -/
  | unknown
  deriving DecidableEq, Repr

def longOption (name : String) (value : Option String) : Token :=
  match name, value with
  | "config", value => .setting .config value
  | "link-delay", value => .setting .linkDelay value
  | "filter", value => .setting .filter value
  | "json", none => .flag .json
  | "realtime", none => .flag .realtime
  | _, _ => .unknown

/-- What stands right behind a letter. An equals sign before it does not count. -/
def attached : List Char → Option String
  | [] => none
  | '=' :: value => some (String.ofList value)
  | value => some (String.ofList value)

def shortOption (letter : Char) (behind : List Char) : Token :=
  match letter with
  | 'c' => .setting .config (attached behind)
  | 'f' => .setting .filter (attached behind)
  | _ => .unknown

def Token.ofString (argument : String) : Token :=
  match argument.toList with
  | ['-', '-'] => .endOfOptions
  | '-' :: '-' :: body =>
    longOption (String.ofList (body.takeWhile (· ≠ '=')))
      ((body.dropWhile (· ≠ '=')).tail?.map String.ofList)
  | '-' :: letter :: behind => shortOption letter behind
  | _ => .operand argument

/-- A whole number below 2⁶⁴ in decimal digits, which may have a plus sign before them. -/
def uint64? (text : String) : Option UInt64 :=
  let digits :=
    match text.toList with
    | '+' :: digits => digits
    | digits => digits
  match JsonText.readDigits1 digits with
  | some (digits, []) =>
    let n := JsonText.ofDigits digits
    if n < UInt64.size then some (UInt64.ofNat n) else none
  | _ => none

structure Draft where
  scenario : Option ScenarioName := none
  configPath : Option String := none
  linkDelay : Option UInt64 := none
  filter : Option String := none
  json : Bool := false
  realtime : Bool := false
  deriving DecidableEq, Repr

namespace Draft

def operand (text : String) (d : Draft) : Option Draft := do
  let name ← Vocabulary.ofWord? text
  if d.scenario.isSome then none else return { d with scenario := some name }

def raise (flag : Flag) (d : Draft) : Option Draft :=
  match flag with
  | .json => if d.json then none else some { d with json := true }
  | .realtime => if d.realtime then none else some { d with realtime := true }

def set (setting : Setting) (value : String) (d : Draft) : Option Draft :=
  match setting with
  | .config => if d.configPath.isSome then none else some { d with configPath := some value }
  | .linkDelay => do
    let delay ← uint64? value
    if d.linkDelay.isSome then none else return { d with linkDelay := some delay }
  | .filter => if d.filter.isSome then none else some { d with filter := some value }

def finish (d : Draft) : Option Arguments := do
  return ⟨← d.scenario, d.configPath, d.linkDelay, d.filter, d.json, d.realtime⟩

end Draft

def readOnto : List String → Draft → Option Draft
  | [], d => some d
  | argument :: rest, d =>
    match Token.ofString argument with
    | .endOfOptions => rest.foldlM (fun d text => d.operand text) d
    | .flag flag => (d.raise flag).bind (readOnto rest)
    | .setting setting (some value) => (d.set setting value).bind (readOnto rest)
    | .setting setting none =>
      match rest with
      | [] => none
      | value :: rest =>
        match Token.ofString value with
        | .operand value => (d.set setting value).bind (readOnto rest)
        | _ => none
    | .operand text => (d.operand text).bind (readOnto rest)
    | .unknown => none

def parse? (arguments : List String) : Option Arguments :=
  (readOnto arguments {}).bind Draft.finish

def usage : String :=
  "Usage: floorsim [--config FILE] [--link-delay MS] [--filter WORD] [--json] [--realtime] " ++
    "<preempt|queue|max-duration|broadcast|dual>"

end Arguments
end FloorControl
