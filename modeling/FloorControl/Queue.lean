import FloorControl.Indicator
import FloorControl.Error

/-!
# The floor queue

Parties that wait for the floor, the highest priority first and, among equals, the earliest
arrival first. A party waits at most once, and the queue has a fixed capacity. Places are counted
from one.
-/

namespace FloorControl

/-- A waiting party. Arrivals are numbered through the life of the queue. -/
structure QueueEntry where
  ssrc : Ssrc
  priority : Priority
  indicator : Indicator
  arrival : Nat
  deriving DecidableEq, Repr

def QueueEntry.talker (e : QueueEntry) : Talker := ⟨e.ssrc, e.priority, e.indicator⟩

structure FloorQueue where
  capacity : Nat
  entries : List QueueEntry := []
  /-- How many parties have ever been admitted. -/
  arrivals : Nat := 0
  deriving DecidableEq, Repr

namespace FloorQueue

def contains (q : FloorQueue) (ssrc : Ssrc) : Bool := q.entries.any (·.ssrc = ssrc)

def get? (q : FloorQueue) (ssrc : Ssrc) : Option QueueEntry := q.entries.find? (·.ssrc = ssrc)

def position? (q : FloorQueue) (ssrc : Ssrc) : Option Nat :=
  (q.entries.findIdx? (·.ssrc = ssrc)).map (· + 1)

def length (q : FloorQueue) : Nat := q.entries.length

def isEmpty (q : FloorQueue) : Bool := q.entries.isEmpty

def first? (q : FloorQueue) : Option QueueEntry := q.entries.head?

/-- The entries that are served before a newcomer of the given priority. -/
def ahead (priority : Priority) (entries : List QueueEntry) : List QueueEntry :=
  entries.takeWhile (priority ≤ ·.priority)

/-- The entries that a newcomer of the given priority overtakes. -/
def behind (priority : Priority) (entries : List QueueEntry) : List QueueEntry :=
  entries.dropWhile (priority ≤ ·.priority)

/-- Admit a party behind all of its own priority or a higher one, and give its place. A party that
waits already is refused before a full queue is looked at. -/
def enqueue (who : Talker) (q : FloorQueue) : Except FloorError (FloorQueue × Nat) :=
  if q.contains who.ssrc then .error (.alreadyQueued who.ssrc)
  else if q.capacity ≤ q.length then .error (.queueFull q.capacity)
  else
    let entry : QueueEntry := ⟨who.ssrc, who.priority, who.indicator, q.arrivals + 1⟩
    .ok ({ q with
        entries := ahead who.priority q.entries ++ entry :: behind who.priority q.entries
        arrivals := q.arrivals + 1 },
      (ahead who.priority q.entries).length + 1)

def dequeue? (q : FloorQueue) : Option (QueueEntry × FloorQueue) :=
  match q.entries with
  | [] => none
  | e :: rest => some (e, { q with entries := rest })

def remove (ssrc : Ssrc) (q : FloorQueue) : FloorQueue :=
  { q with entries := q.entries.filter (·.ssrc ≠ ssrc) }

def clear (q : FloorQueue) : FloorQueue := { q with entries := [] }

@[simp] theorem ahead_append_behind (priority : Priority) (entries : List QueueEntry) :
    ahead priority entries ++ behind priority entries = entries :=
  List.takeWhile_append_dropWhile

theorem ahead_subset (priority : Priority) (entries : List QueueEntry) :
    ahead priority entries ⊆ entries := (List.takeWhile_prefix _).subset

theorem behind_subset (priority : Priority) (entries : List QueueEntry) :
    behind priority entries ⊆ entries := (List.dropWhile_suffix _).subset

theorem contains_iff (q : FloorQueue) (ssrc : Ssrc) :
    q.contains ssrc = true ↔ ∃ e ∈ q.entries, e.ssrc = ssrc := by
  simp [contains]

theorem contains_remove (q : FloorQueue) (removed ssrc : Ssrc) :
    (q.remove removed).contains ssrc = true ↔ q.contains ssrc = true ∧ ssrc ≠ removed := by
  simp only [contains_iff, remove, List.mem_filter, decide_eq_true_eq]
  constructor
  · rintro ⟨e, ⟨hmem, hne⟩, rfl⟩
    exact ⟨⟨e, hmem, rfl⟩, by simpa using hne⟩
  · rintro ⟨⟨e, hmem, rfl⟩, hne⟩
    exact ⟨e, ⟨hmem, by simpa using hne⟩, rfl⟩

end FloorQueue
end FloorControl
