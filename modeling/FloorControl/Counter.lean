import FloorControl.Identity

/-!
# Retry counters

A counter says when a repeated message has been repeated often enough. It never runs past its
limit: counting up is refused there, and the step that arrives at the limit says so.
-/

namespace FloorControl

inductive CounterId where
  | c7
  | c20
  | c100
  | c101
  | c104
  deriving DecidableEq, Repr

instance : Vocabulary CounterId where
  all := [.c7, .c20, .c100, .c101, .c104]
  word
    | .c7 => "C7"
    | .c20 => "C20"
    | .c100 => "C100"
    | .c101 => "C101"
    | .c104 => "C104"
  mem_all a := by cases a <;> decide
  word_injective a b := by cases a <;> cases b <;> decide

structure Counter where
  id : CounterId
  limit : Nat
  value : Nat := 0
  deriving DecidableEq, Repr

namespace Counter

/-- Count up by one, unless the limit is reached already. -/
def increment (c : Counter) : Counter :=
  if c.value < c.limit then { c with value := c.value + 1 } else c

/-- Whether the next count arrives at the limit. A counter already there, or beyond it because the
limit was lowered, arrives no more. -/
def arrives (c : Counter) : Bool := c.value + 1 = c.limit

def reset (c : Counter) : Counter := { c with value := 0 }

def setLimit (limit : Nat) (c : Counter) : Counter := { c with limit := limit }

def limitReached (c : Counter) : Bool := c.limit ≤ c.value

@[simp] theorem increment_id (c : Counter) : c.increment.id = c.id := by
  simp only [increment]; split <;> rfl

@[simp] theorem increment_limit (c : Counter) : c.increment.limit = c.limit := by
  simp only [increment]; split <;> rfl

theorem value_increment (c : Counter) (h : c.value ≤ c.limit) :
    c.increment.value = min (c.value + 1) c.limit := by
  by_cases hlt : c.value < c.limit <;> simp only [increment, hlt, if_true, if_false] <;> omega

theorem arrives_iff (c : Counter) :
    c.arrives = true ↔ c.value < c.limit ∧ c.increment.value = c.limit := by
  simp only [arrives, increment, decide_eq_true_eq]
  constructor
  · intro h
    have : c.value < c.limit := by omega
    simp [this, h]
  · rintro ⟨hlt, h⟩
    simpa [hlt] using h

end Counter
end FloorControl
