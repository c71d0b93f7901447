import FloorControl.Identity

/-!
# Errors

Everything that a call, the server, the packet reader or the configuration can refuse, each with
the values that its text names. All wording is in the functions named `message`.
-/

namespace FloorControl

inductive PayloadFault where
  | missing
  /-- The text is no packet, or the payload is none of its kind. -/
  | malformed
  deriving DecidableEq, Repr

inductive FileFault where
  | missing
  | denied
  | directory
  | notText
  | other (reason : String)
  deriving DecidableEq, Repr

def FileFault.message : FileFault → String
  | .missing => "No such file or directory (os error 2)"
  | .denied => "Permission denied (os error 13)"
  | .directory => "Is a directory (os error 21)"
  | .notText => "stream did not contain valid UTF-8"
  | .other reason => reason

inductive ConfigFault where
  /-- The text is no configuration. -/
  | malformed
  | unreadable (path : String) (fault : FileFault)
  /-- The named retry limit is zero. -/
  | zeroLimit (name : String)
  /-- Waiting is supported, but the queue has no room. -/
  | zeroCapacity
  deriving DecidableEq, Repr

/-- Why an operation is refused. -/
inductive FloorError where
  | callIdOutOfRange (call : CallId)
  | callNotFound (call : CallId)
  | participantNotFound (ssrc : Ssrc)
  | duplicateParticipant (ssrc : Ssrc)
  | alreadyQueued (ssrc : Ssrc)
  | queueFull (capacity : Nat)
  | noFloorPermission (ssrc : Ssrc)
  | callNotActive (call : CallId)
  | invalidOpcode (code : UInt8)
  | invalidPayload (fault : PayloadFault)
  | config (fault : ConfigFault)
  deriving DecidableEq, Repr

def FloorError.message : FloorError → String
  | .callIdOutOfRange call => s!"Call id out of allocated range: {call}"
  | .callNotFound call => s!"Call not found: {call}"
  | .participantNotFound ssrc => s!"Participant not in roster: {ssrc}"
  | .duplicateParticipant ssrc => s!"Participant already in roster: {ssrc}"
  | .alreadyQueued ssrc => s!"Requester already queued: {ssrc}"
  | .queueFull capacity => s!"Floor queue full (capacity {capacity})"
  | .noFloorPermission ssrc => s!"Participant {ssrc} has no floor permission"
  | .callNotActive call => s!"Call {call} is not active"
  | .invalidOpcode code => s!"Invalid floor opcode: {code}"
  | .invalidPayload .missing => "Invalid floor payload: missing payload"
  | .invalidPayload .malformed => "Invalid floor payload"
  | .config .malformed => "Configuration error"
  | .config (.unreadable path fault) => s!"Configuration error: {path}: {fault.message}"
  | .config (.zeroLimit name) => s!"Configuration error: {name} must be at least 1"
  | .config .zeroCapacity =>
      "Configuration error: queue_capacity must be at least 1 when queueing"

end FloorControl
