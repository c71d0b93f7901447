import FloorControl.EventJson
import FloorControl.Letters
import FloorControl.Server
import FloorControl.TextTable
import FloorControl.TraceHub

/-!
# The report of a played call

What is printed about a scenario: a heading, one line for each event that is shown, and how the
arbitrator and the parties stand in the end. Events are read from a hub when everything is over,
so a scenario with more events than the hub keeps shows none.
-/

namespace FloorControl

def FloorEvent.kind : FloorEvent → String
  | .arbitratorMoved .. | .participantMoved .. => "STATE"
  | .messageSent .. => "MSG"
  | .floorGranted .. => "GRANT"
  | .grantPending .. => "PENDING"
  | .floorDenied .. => "DENY"
  | .floorRevoked .. => "REVOKE"
  | .failure .. => "FAIL"
  | .callReleased .. => "END"

def Endpoint.label : Endpoint → String
  | .arbitrator => "arbitrator"
  | .participant ssrc => s!"{ssrc}"

namespace Report

def ruler : String := String.ofList (List.replicate 90 '─')

def party (ssrc : Ssrc) : String := setRight 10 s!"{ssrc}"

/-- What is said about an event besides its time and kind. -/
def detail : FloorEvent → String
  | .arbitratorMoved _ ssrc before after => s!"{party ssrc}   {before.title} → {after.title}"
  | .participantMoved _ ssrc before after => s!"{party ssrc}   {before.title} → {after.title}"
  | .messageSent _ sender receiver message =>
    s!"{setRight 10 sender.label} → {setLeft 10 receiver.label} {message.label}"
  | .floorGranted _ ssrc | .grantPending _ ssrc => party ssrc
  | .floorDenied _ ssrc cause onSite =>
    let place := if onSite then " (local)" else ""
    s!"{party ssrc}   {cause.describe}{place}"
  | .floorRevoked _ ssrc cause => s!"{party ssrc}   {cause.describe}"
  | .failure _ ssrc kind => s!"{party ssrc}   {kind.title}"
  | .callReleased call => s!"call={call}"

def eventLine (e : TraceEvent) : String :=
  let time := s!"{e.time}"
  s!"  {setRight 7 time}ms {setLeft 8 e.event.kind} {detail e.event}"

def occursIn (word : List Char) : (text : List Char) → Bool
  | [] => word.isEmpty
  | c :: rest => word.isPrefixOf (c :: rest) || occursIn word rest

/-- Whether a filter lets an event pass. Case does not matter. -/
def passes (filter : Option String) (e : TraceEvent) : Bool :=
  filter.all fun word => occursIn (foldedText word).toList (foldedText e.event.kind).toList

/-- The events as a receiver gets them that begins to read when everything is over. -/
def received (trace : List TraceEvent) : List TraceEvent :=
  let hub := trace.foldl (fun hub e => hub.publish e) (TraceHub.subscribe {})
  hub.drain trace.length 0

def heading (id : CallId) (callType : CallType) (parties : Nat) (linkDelay : UInt64)
    (realtime : Bool) : List String :=
  let name := Vocabulary.word callType
  let pace := if realtime then "[realtime]" else ""
  [ruler,
    s!"  floorsim ▶  call={id} type={name} parties={parties} link_delay={linkDelay}ms {pace}",
    ruler]

def orHyphen : Option String → String := (·.getD "-")

def participantRow (p : Participant) : List String :=
  [s!"{p.ssrc}", s!"{p.priority}", p.state.title, orHyphen (p.talker.map fun s => s!"{s}"),
    orHyphen (p.position.map fun n => s!"#{n}")]

def summary (s : Session) : List String :=
  s!"  arbitrator: {s.arbitrator.state.title}  (t={s.now}ms)" ::
    TextTable.lines ["SSRC", "PRI", "STATE", "TALKER", "QUEUE"]
      (s.participants.values.map participantRow)

def body (trace : List TraceEvent) (filter : Option String) (json : Bool) (s : Session) :
    List String :=
  let shown := (received trace).filter (passes filter)
  let holder := orHyphen (s.holder?.map fun h => s!"{h}")
  shown.map (fun e => if json then e.toJson.text else eventLine e) ++
    ruler :: summary s ++ [s!"  {shown.length} events shown, holder={holder}"]

end Report
end FloorControl
