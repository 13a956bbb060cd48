import Chip8.Instruction.Encoding
import Chip8.Machine.Execute

/-!
# Cycles

A cycle fetches the word at the program counter, decodes it and executes it. If that faults, the
program counter is put back on the instruction, the fault is recorded, and the machine is halted:
its later cycles do nothing.

## Main definitions

* `Machine.fetched` — the machine after the fetch
* `Machine.cycle` — the outcome of a cycle
-/

namespace Chip8.Machine

/-- The machine after the fetch: the program counter points behind the word, and the display
counts as unchanged. -/
def fetched (m : Machine) : Machine := { m with pc := m.pc + 2, redraw := false }

def instruction (m : Machine) : Instruction := .decode m.opcode

/-- The machine halted by a fault, with the program counter back on the instruction. -/
def halt (m : Machine) (f : Fault) : Machine := { m with pc := m.pc - 2, fault := some f }

/-- The outcome of a cycle; `random` is the byte that `RND` uses. -/
def cycle (m : Machine) (random : UInt8) : Outcome :=
  if m.halted then { machine := m }
  else
    let done := m.fetched.execute random m.instruction
    let log := .fetched m.pc m.instruction :: done.log
    -- a fault is recorded behind what the instruction reported before it
    match done.fault with
    | none => { machine := done.machine, log }
    | some f => { machine := done.machine.halt f, fault := some f, log := log ++ [.halted f] }

/-- A halted machine stays as it is. -/
theorem cycle_of_halted {m : Machine} (h : m.halted = true) (random : UInt8) :
    m.cycle random = { machine := m } := by
  simp [cycle, h]

end Chip8.Machine
