import FloorControl.Identity

/-!
# States of the two machines

The arbitrator of a call and each of its participants are in one of six states. The word of a
state is its plain name, the title is what observers are told.
-/

namespace FloorControl

inductive ArbitratorState where
  /-- Before the call is set up and after it is over. -/
  | startStop
  /-- Some party is not ready yet. -/
  | initialising
  /-- Nobody has the floor. -/
  | idle
  /-- Somebody has the floor. -/
  | taken
  /-- Somebody has the floor and was told to give it back. -/
  | pendingRevoke
  /-- The call is being taken down. -/
  | releasing
  deriving DecidableEq, Repr

namespace ArbitratorState

instance : Vocabulary ArbitratorState where
  all := [.startStop, .initialising, .idle, .taken, .pendingRevoke, .releasing]
  word
    | .startStop => "StartStop"
    | .initialising => "Initialising"
    | .idle => "Idle"
    | .taken => "Taken"
    | .pendingRevoke => "PendingRevoke"
    | .releasing => "Releasing"
  mem_all a := by cases a <;> decide
  word_injective a b := by cases a <;> cases b <;> decide

def title : ArbitratorState → String
  | .startStop => "G: Start-Stop"
  | .initialising => "G: Initialising"
  | .idle => "G: Floor Idle"
  | .taken => "G: Floor Taken"
  | .pendingRevoke => "G: Pending Floor Revoke"
  | .releasing => "G: Releasing"

def occupied : ArbitratorState → Bool
  | .taken | .pendingRevoke => true
  | .startStop | .initialising | .idle | .releasing => false

end ArbitratorState

inductive ParticipantState where
  /-- Before its call is set up and after it is over. -/
  | startStop
  /-- It may not talk and wants nothing. -/
  | idle
  /-- It has asked for the floor and waits for the answer. -/
  | pendingRequest
  /-- It waits for the floor in the queue. -/
  | queued
  /-- It may talk. -/
  | hasPermission
  /-- It has given the floor back and waits for the confirmation. -/
  | pendingRelease
  deriving DecidableEq, Repr

namespace ParticipantState

instance : Vocabulary ParticipantState where
  all := [.startStop, .idle, .pendingRequest, .queued, .hasPermission, .pendingRelease]
  word
    | .startStop => "StartStop"
    | .idle => "Idle"
    | .pendingRequest => "PendingRequest"
    | .queued => "Queued"
    | .hasPermission => "HasPermission"
    | .pendingRelease => "PendingRelease"
  mem_all a := by cases a <;> decide
  word_injective a b := by cases a <;> cases b <;> decide

def title : ParticipantState → String
  | .startStop => "U: Start-Stop"
  | .idle => "U: has no permission"
  | .pendingRequest => "U: pending Request"
  | .queued => "U: queued"
  | .hasPermission => "U: has permission"
  | .pendingRelease => "U: pending Release"

end ParticipantState
end FloorControl
