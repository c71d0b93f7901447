import FloorControl.Server

/-!
# A clock that ticks

Outside the server time passes by itself. A tick clock moves the server at every tick to the time
that has passed since the clock was started; between two ticks, and beyond the last moment, the
server stands still. A tick is at least one millisecond long. It strikes as time goes on over its
moment, so a sleep that ends at that very moment ends before the tick.
-/

namespace FloorControl

structure TickClock where
  /-- The time of the server at the start. -/
  base : Nat
  tick : Nat
  /-- The time since the start. -/
  elapsed : Nat := 0
  tick_pos : 0 < tick := by omega
  deriving DecidableEq, Repr

namespace TickClock

def startAt (r : Server.Run) (tick : Nat) : TickClock where
  base := r.state.now
  tick := max tick 1

def ticks (c : TickClock) : Nat := (c.elapsed - 1) / c.tick

/-- A tick has struck if its moment is past, and not merely reached. -/
theorem le_ticks_iff (c : TickClock) {k : Nat} (hk : 0 < k) :
    k ≤ c.ticks ↔ k * c.tick < c.elapsed := by
  have hpos := Nat.mul_pos hk c.tick_pos
  rw [ticks, Nat.le_div_iff_mul_le c.tick_pos]
  omega

def timeAt (c : TickClock) (k : Nat) : Nat := c.base + k * c.tick

def strike (c : TickClock) (r : Server.Run) (k : Nat) : Server.Run :=
  if c.timeAt k ≤ Time.last then Server.advanceTo (c.timeAt k) r else r

/-- Let time pass, and move the server at each tick that strikes meanwhile. -/
def sleep (time : Nat) (c : TickClock) (r : Server.Run) : TickClock × Server.Run :=
  let later := { c with elapsed := c.elapsed + time }
  (later, (List.range' (c.ticks + 1) (later.ticks - c.ticks)).foldl c.strike r)

end TickClock
end FloorControl
