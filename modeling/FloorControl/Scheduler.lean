import FloorControl.Time

/-!
# The scheduler

Events that wait for their moment, in the order in which they are handed out: by deadline and, for
equal deadlines, in the order of scheduling. The owner moves the clock: taking an event out moves
it to that event's deadline, and `settle` moves it to a given moment. It never goes back.
-/

namespace FloorControl

/-- An event with its deadline and the number of its scheduling. -/
structure Scheduled (ε : Type) where
  due : Nat
  seq : Nat
  event : ε
  deriving DecidableEq, Repr

structure Scheduler (ε : Type) where
  now : Nat := 0
  /-- How many events have ever been scheduled. -/
  seq : Nat := 0
  pending : List (Scheduled ε) := []
  deriving DecidableEq, Repr

namespace Scheduler

variable {ε : Type}

/-- Put an event behind all that are due no later. -/
def place (x : Scheduled ε) (pending : List (Scheduled ε)) : List (Scheduled ε) :=
  pending.takeWhile (·.due ≤ x.due) ++ x :: pending.dropWhile (·.due ≤ x.due)

def schedule (delay : Nat) (event : ε) (s : Scheduler ε) : Scheduler ε :=
  { s with
    seq := s.seq + 1
    pending := place ⟨Time.after s.now delay, s.seq + 1, event⟩ s.pending }

def popDue (limit : Nat) (s : Scheduler ε) : Option (ε × Scheduler ε) :=
  match s.pending with
  | [] => none
  | x :: rest =>
    if x.due ≤ limit then some (x.event, { s with now := max s.now x.due, pending := rest })
    else none

def settle (t : Nat) (s : Scheduler ε) : Scheduler ε := { s with now := max s.now t }

def nextDue? (s : Scheduler ε) : Option Nat := s.pending.head?.map (·.due)

def clear (s : Scheduler ε) : Scheduler ε := { s with pending := [] }

/-- Take out every event that is due at `limit` or before, each with the time shown by the clock
when it comes. -/
def drainDue (limit : Nat) (s : Scheduler ε) : List (Nat × ε) × Scheduler ε :=
  match _h : s.popDue limit with
  | none => ([], s)
  | some (event, s') =>
    let (later, done) := drainDue limit s'
    ((s'.now, event) :: later, done)
termination_by s.pending.length
decreasing_by
  cases hp : s.pending with
  | nil => simp [popDue, hp] at _h
  | cons x rest =>
    simp only [popDue, hp] at _h
    split at _h
    · cases _h; simp
    · simp at _h

theorem mem_place (x y : Scheduled ε) (pending : List (Scheduled ε)) :
    y ∈ place x pending ↔ y = x ∨ y ∈ pending := by
  conv => rhs; rw [← List.takeWhile_append_dropWhile (p := (·.due ≤ x.due)) (l := pending)]
  simp only [place, List.mem_append, List.mem_cons]
  constructor
  · rintro (h | h | h) <;> simp [h]
  · rintro (h | h | h) <;> simp [h]

@[simp] theorem now_schedule (delay : Nat) (event : ε) (s : Scheduler ε) :
    (s.schedule delay event).now = s.now := rfl

@[simp] theorem now_settle (t : Nat) (s : Scheduler ε) : (s.settle t).now = max s.now t := rfl

theorem now_le_popDue {limit : Nat} {s s' : Scheduler ε} {e : ε}
    (h : s.popDue limit = some (e, s')) : s.now ≤ s'.now := by
  simp only [popDue] at h
  split at h
  · simp at h
  · split at h
    · cases h; exact Nat.le_max_left _ _
    · simp at h

end Scheduler
end FloorControl
