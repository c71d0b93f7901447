import FloorControl.Identity

/-!
# Causes of denials and revocations

Why a request is turned down and why a talker loses the floor. Each cause has a word, used in
messages, and a code, shown to people beside its name.
-/

namespace FloorControl

/-- Why a request for the floor is turned down. -/
inductive DenyCause where
  | anotherUserHasPermission
  | internalError
  | onlyOneParticipant
  | retryAfterTimer
  | receiveOnly
  | noResources
  | callReleased
  deriving DecidableEq, Repr

namespace DenyCause

instance : Vocabulary DenyCause where
  all := [.anotherUserHasPermission, .internalError, .onlyOneParticipant, .retryAfterTimer,
    .receiveOnly, .noResources, .callReleased]
  word
    | .anotherUserHasPermission => "another_user_has_permission"
    | .internalError => "internal_error"
    | .onlyOneParticipant => "only_one_participant"
    | .retryAfterTimer => "retry_after_timer"
    | .receiveOnly => "receive_only"
    | .noResources => "no_resources"
    | .callReleased => "call_released"
  mem_all a := by cases a <;> decide
  word_injective a b := by cases a <;> cases b <;> decide

def code : DenyCause → Nat
  | .anotherUserHasPermission => 101
  | .internalError => 102
  | .onlyOneParticipant => 103
  | .retryAfterTimer => 104
  | .receiveOnly => 105
  | .noResources => 106
  | .callReleased => 107

def title : DenyCause → String
  | .anotherUserHasPermission => "AnotherUserHasPermission"
  | .internalError => "InternalError"
  | .onlyOneParticipant => "OnlyOneParticipant"
  | .retryAfterTimer => "RetryAfterTimer"
  | .receiveOnly => "ReceiveOnly"
  | .noResources => "NoResources"
  | .callReleased => "CallReleased"

def describe (c : DenyCause) : String := s!"{c.title}({c.code})"

end DenyCause

/-- Why a talker loses the floor. -/
inductive RevokeCause where
  | onlyOneParticipant
  | maxDuration
  | preempted
  | noResources
  | callReleased
  deriving DecidableEq, Repr

namespace RevokeCause

instance : Vocabulary RevokeCause where
  all := [.onlyOneParticipant, .maxDuration, .preempted, .noResources, .callReleased]
  word
    | .onlyOneParticipant => "only_one_participant"
    | .maxDuration => "max_duration"
    | .preempted => "preempted"
    | .noResources => "no_resources"
    | .callReleased => "call_released"
  mem_all a := by cases a <;> decide
  word_injective a b := by cases a <;> cases b <;> decide

def code : RevokeCause → Nat
  | .onlyOneParticipant => 1
  | .maxDuration => 2
  | .preempted => 3
  | .noResources => 4
  | .callReleased => 5

def title : RevokeCause → String
  | .onlyOneParticipant => "OnlyOneParticipant"
  | .maxDuration => "MaxDuration"
  | .preempted => "Preempted"
  | .noResources => "NoResources"
  | .callReleased => "CallReleased"

def describe (c : RevokeCause) : String := s!"{c.title}({c.code})"

end RevokeCause
end FloorControl
