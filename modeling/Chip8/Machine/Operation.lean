import Chip8.Machine.Cycle

/-!
# What a front end does with a machine

A front end loads programs, runs cycles, sets registers, passes on key presses, and drives the
timers. It also supplies what the machine has no source of its own for: random bytes and the time.

## Main definitions

* `Machine.load` — puts a program into the machine and resets it
* `Machine.startTimers`, `Machine.stopTimers` — the timers together with the wall clock
* `Machine.updateTimers` — the ticks that went by on the wall clock
* `Machine.Operation`, `Machine.perform` — everything a front end does, as a value
* `Machine.run` — one operation after the other
-/

namespace Chip8.Machine

/-- The most ticks that an update applies: after so many both timers are at zero. -/
def maxTicks : Nat := 255

def startTimers (m : Machine) (now : Nat) : Machine :=
  { m with timers := m.timers.start, clock := m.clock.start now }

def stopTimers (m : Machine) : Machine :=
  { m with timers := m.timers.stop, clock := m.clock.stop }

/-- How many ticks an update applies. -/
def dueTicks (m : Machine) (now : Nat) : Nat := min (m.clock.lap now).1.toNat maxTicks

/-- Applies the ticks that went by on the wall clock since the last update. -/
def updateTimers (m : Machine) (now : Nat) : Machine :=
  { m with timers := m.timers.ticks (m.dueTicks now), clock := (m.clock.lap now).2 }

/-- The machine with a program in its program area and everything else reset, apart from the
keypad, which follows the player's fingers. -/
def reset (m : Machine) (program : List UInt8) : Machine :=
  { m with
    memory := m.memory.load program
    display := .blank
    redraw := false
    registers := .zero
    index := 0
    pc := UInt16.ofNat Layout.programStart
    stack := []
    fault := none
    timers := m.timers.reset }

/-- Loads a program and, if the machine is set up so, starts the timers. -/
def load (m : Machine) (program : List UInt8) (now : Nat) : Outcome where
  machine :=
    if m.options.enableTimer then (m.reset program).startTimers now else m.reset program
  log :=
    (if Layout.programCapacity < program.length then [.oversized program.length] else []) ++
      [.loaded (min program.length Layout.programCapacity)]

/-- What a front end does with a machine. -/
inductive Operation where
  | load (program : List UInt8) (now : Nat)
  | cycle (random : UInt8)
  /-- Executes an instruction without fetching it. -/
  | execute (i : Instruction) (random : UInt8)
  | setRegister (r : Register) (b : UInt8)
  | setIndex (pointer : UInt16)
  | keypad (op : Keypad.Operation)
  /-- Uses the timers on their own, leaving the wall clock alone. -/
  | timers (op : Timers.Operation)
  | startTimers (now : Nat)
  | stopTimers
  | updateTimers (now : Nat)
  deriving DecidableEq, Repr

def perform (m : Machine) : Operation → Outcome
  | .load program now => m.load program now
  | .cycle random => m.cycle random
  | .execute i random => m.execute random i
  | .setRegister r b => { machine := m.setReg r b }
  | .setIndex pointer => { machine := { m with index := pointer } }
  | .keypad op => { machine := { m with keypad := m.keypad.apply op } }
  | .timers op => { machine := { m with timers := m.timers.apply op } }
  | .startTimers now => { machine := m.startTimers now }
  | .stopTimers => { machine := m.stopTimers }
  | .updateTimers now => { machine := m.updateTimers now }

/-- The machine after one operation after the other. -/
def run (m : Machine) (ops : List Operation) : Machine :=
  ops.foldl (fun m op => (m.perform op).machine) m

@[simp] theorem run_nil (m : Machine) : m.run [] = m := rfl

@[simp] theorem run_cons (m : Machine) (op : Operation) (ops : List Operation) :
    m.run (op :: ops) = (m.perform op).machine.run ops := rfl

theorem run_append (m : Machine) (ops ops' : List Operation) :
    m.run (ops ++ ops') = (m.run ops).run ops' := List.foldl_append

end Chip8.Machine
