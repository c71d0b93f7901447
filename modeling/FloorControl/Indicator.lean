import FloorControl.Identity

/-!
# Indicators, call types and preemption

An indicator says what kind of talk a request is for, a call type what kind of call it is made in.
Indicators fall into three ranks, and a talker preempts another when its rank is higher or, in the
same rank, its priority is strictly greater.
-/

namespace FloorControl

/-- The kind of talk that a request asks for. -/
inductive Indicator where
  | normal
  | broadcast
  | imminentPeril
  | emergency
  deriving DecidableEq, Repr

namespace Indicator

instance : Vocabulary Indicator where
  all := [.normal, .broadcast, .imminentPeril, .emergency]
  word
    | .normal => "normal"
    | .broadcast => "broadcast"
    | .imminentPeril => "imminent_peril"
    | .emergency => "emergency"
  mem_all a := by cases a <;> decide
  word_injective a b := by cases a <;> cases b <;> decide

/-- Emergency is above imminent peril, which is above normal talk and broadcasts alike. -/
def precedence : Indicator → Nat
  | .normal | .broadcast => 0
  | .imminentPeril => 1
  | .emergency => 2

end Indicator

/-- The kind of a call, fixed when it is set up. -/
inductive CallType where
  | basic
  | broadcast
  | emergency
  | imminentPeril
  | privateCall
  | emergencyPrivate
  deriving DecidableEq, Repr

namespace CallType

instance : Vocabulary CallType where
  all := [.basic, .broadcast, .emergency, .imminentPeril, .privateCall, .emergencyPrivate]
  word
    | .basic => "basic"
    | .broadcast => "broadcast"
    | .emergency => "emergency"
    | .imminentPeril => "imminent_peril"
    | .privateCall => "private"
    | .emergencyPrivate => "emergency_private"
  mem_all a := by cases a <;> decide
  word_injective a b := by cases a <;> cases b <;> decide

/-- The indicator that a request carries when its sender asks for none. -/
def indicator : CallType → Indicator
  | .basic | .privateCall => .normal
  | .broadcast => .broadcast
  | .emergency | .emergencyPrivate => .emergency
  | .imminentPeril => .imminentPeril

end CallType

/-- A party with the standing of its request: one that talks, or waits to talk. -/
structure Talker where
  ssrc : Ssrc
  priority : Priority
  indicator : Indicator
  deriving DecidableEq, Repr

def preempts (wanted : Indicator) (wantedPriority : Priority) (current : Indicator)
    (currentPriority : Priority) : Bool :=
  current.precedence < wanted.precedence ||
    (current.precedence = wanted.precedence && currentPriority < wantedPriority)

def Talker.preempts (a b : Talker) : Bool :=
  FloorControl.preempts a.indicator a.priority b.indicator b.priority

theorem Talker.not_preempts_self (a : Talker) : a.preempts a = false := by
  simp [Talker.preempts, FloorControl.preempts]

end FloorControl
