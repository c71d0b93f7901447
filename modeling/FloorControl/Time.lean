/-!
# Logical time

Time is counted in milliseconds and is moved by whoever owns the call, never by a wall clock. The
last moment is `Time.last`; a deadline that would lie beyond it falls on it.
-/

namespace FloorControl.Time

/-- The last moment that a clock can show. -/
def last : Nat := UInt64.size - 1

/-- The moment `delay` after `now`, at most the last one. -/
def after (now delay : Nat) : Nat := min (now + delay) last

theorem after_le_last (now delay : Nat) : after now delay ≤ last := Nat.min_le_right _ _

theorem after_le_add (now delay : Nat) : after now delay ≤ now + delay := Nat.min_le_left _ _

theorem le_after {now : Nat} (delay : Nat) (h : now ≤ last) : now ≤ after now delay := by
  simp only [after]; omega

theorem after_mono {now later : Nat} (delay : Nat) (h : now ≤ later) :
    after now delay ≤ after later delay := by
  simp only [after]; omega

end FloorControl.Time
