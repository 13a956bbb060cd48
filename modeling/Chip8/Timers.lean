/-!
# The delay and sound timers

Two bytes that count down to zero, one step a tick, while the timers run. A tone plays while the
sound timer is not zero. Nothing ticks by itself: a front end ticks the timers, or asks a clock
how many ticks have gone by.

## Main definitions

* `Timers` — the two values and whether they run
* `Timers.tick`, `Timers.ticks` — one tick, several ticks
* `Timers.Operation`, `Timers.apply` — what can be done to timers, as a value

## Main results

* `Timers.toNat_delay_tick`, `Timers.toNat_sound_tick` — a tick takes one away, not below zero
-/

namespace Chip8

structure Timers where
  delay : UInt8 := 0
  sound : UInt8 := 0
  /-- Whether ticks have an effect. -/
  running : Bool := false
  deriving DecidableEq, Repr

namespace Timers

/-- Lets later ticks have an effect. -/
def start (t : Timers) : Timers := { t with running := true }

/-- Makes later ticks do nothing. -/
def stop (t : Timers) : Timers := { t with running := false }

def setDelay (t : Timers) (b : UInt8) : Timers := { t with delay := b }

def setSound (t : Timers) (b : UInt8) : Timers := { t with sound := b }

/-- Sets both timers to zero, whether they run or not. -/
def reset (t : Timers) : Timers := { t with delay := 0, sound := 0 }

/-- One step of a counter: down by one, but not below zero. -/
def countdown (b : UInt8) : UInt8 := if b = 0 then 0 else b - 1

def tick (t : Timers) : Timers :=
  if t.running then { t with delay := countdown t.delay, sound := countdown t.sound } else t

def ticks (t : Timers) : Nat → Timers
  | 0 => t
  | n + 1 => t.tick.ticks n

/-- Whether a tone plays. -/
def beeps (t : Timers) : Bool := t.sound != 0

/-- What can be done to timers. -/
inductive Operation where
  | start
  | stop
  | reset
  | tick
  | setDelay (b : UInt8)
  | setSound (b : UInt8)
  deriving DecidableEq, Repr

def apply (t : Timers) : Operation → Timers
  | .start => t.start
  | .stop => t.stop
  | .reset => t.reset
  | .tick => t.tick
  | .setDelay b => t.setDelay b
  | .setSound b => t.setSound b

/-! ### Ticks -/

theorem toNat_countdown (b : UInt8) : (countdown b).toNat = b.toNat - 1 := by
  unfold countdown
  split
  · next h => simp [h]
  · next h =>
    have hpos : 0 < b.toNat := Nat.pos_of_ne_zero fun e => h (UInt8.toNat_inj.mp e)
    have hle : (1 : UInt8) ≤ b := by
      rw [UInt8.le_iff_toNat_le]
      exact hpos
    rw [UInt8.toNat_sub_of_le _ _ hle]
    rfl

theorem toNat_delay_tick (t : Timers) :
    t.tick.delay.toNat = if t.running then t.delay.toNat - 1 else t.delay.toNat := by
  unfold tick
  split <;> simp_all [toNat_countdown]

theorem toNat_sound_tick (t : Timers) :
    t.tick.sound.toNat = if t.running then t.sound.toNat - 1 else t.sound.toNat := by
  unfold tick
  split <;> simp_all [toNat_countdown]

@[simp] theorem running_tick (t : Timers) : t.tick.running = t.running := by
  unfold tick
  split <;> rfl

end Timers

end Chip8
