/-!
# The wall clock

A clock counts the ticks of its frequency that go by while it runs. It has no time of its own:
whoever starts it or reads it says what time it is, in nanoseconds. Counts have 32 bits and wrap.

## Main definitions

* `Clock.reading` — how many ticks make up a time
* `Clock.start`, `Clock.stop` — runs and halts the clock
* `Clock.lap` — how many ticks went by since the last lap

## Main results

* `Clock.lap_stopped` — a stopped clock counts nothing
-/

namespace Chip8

structure Clock where
  /-- How many ticks a second has. -/
  frequency : UInt32
  /-- The reading at the last lap, while the clock runs. -/
  mark : Option UInt32 := none
  deriving DecidableEq, Repr

namespace Clock

/-- How many nanoseconds a second has. -/
def second : Nat := 1000000000

/-- How many whole ticks make up a time, counted in 32 bits. -/
def reading (frequency : UInt32) (now : Nat) : UInt32 :=
  UInt32.ofNat (now * frequency.toNat / second)

def running (c : Clock) : Bool := c.mark.isSome

/-- Runs the clock, counting from now. -/
def start (c : Clock) (now : Nat) : Clock := { c with mark := some (reading c.frequency now) }

def stop (c : Clock) : Clock := { c with mark := none }

/-- The ticks that went by since the last lap or the start, and the clock that counts on from
now. -/
def lap (c : Clock) (now : Nat) : UInt32 × Clock :=
  match c.mark with
  | none => (0, c)
  | some mark => (reading c.frequency now - mark, c.start now)

/-- A stopped clock counts nothing and stays as it is. -/
theorem lap_stopped {c : Clock} (h : c.running = false) (now : Nat) : c.lap now = (0, c) := by
  simp_all [lap, running]

@[simp] theorem running_start (c : Clock) (now : Nat) : (c.start now).running = true := rfl

@[simp] theorem running_stop (c : Clock) : c.stop.running = false := rfl

theorem running_lap (c : Clock) (now : Nat) : (c.lap now).2.running = c.running := by
  unfold lap
  split <;> simp_all [running, start]

end Clock

end Chip8
