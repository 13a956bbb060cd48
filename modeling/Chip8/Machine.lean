import Chip8.Clock
import Chip8.Display
import Chip8.Instruction
import Chip8.Instruction.Assembly
import Chip8.Keypad
import Chip8.Log
import Chip8.Memory
import Chip8.Registers
import Chip8.Timers

/-!
# The machine

The whole state of a machine, the faults that halt it, and the messages it logs.

## Main definitions

* `Options` — how a machine is set up
* `Fault` — what halts a machine
* `Event` — what a machine logs
* `Machine` — the state
* `Outcome` — a state with what led to it: a fault, if there was one, and what was logged
* `Machine.new` — a machine before any program is loaded
-/

namespace Chip8

/-- How a machine is set up. -/
structure Options where
  /-- Whether loading a program starts the timers. -/
  enableTimer : Bool := true
  /-- Whether a shift to the left sets the flag when the low four bits are all set, rather than to
  the bit shifted out. -/
  legacyShiftFlag : Bool := false
  /-- How many ticks a second of the wall clock has. -/
  timerFrequency : UInt32 := 60
  deriving DecidableEq, Repr

namespace Options

/-- The usual set-up. -/
def standard : Options := {}

/-- A set-up in which nothing starts the timers by itself. -/
def quiet : Options := { enableTimer := false }

end Options

/-- What halts a machine. Each fault carries the address of its instruction. -/
inductive Fault where
  /-- A call while the call stack was full. -/
  | stackOverflow (source : UInt16)
  /-- A return outside of any subroutine. -/
  | stackUnderflow (source : UInt16)
  /-- A jump or a call into the interpreter area. -/
  | jumpBelowProgram (source target : UInt16)
  deriving DecidableEq, Repr

namespace Fault

/-- The address of the instruction that faulted. -/
def source : Fault → UInt16
  | stackOverflow source => source
  | stackUnderflow source => source
  | jumpBelowProgram source _ => source

def message : Fault → String
  | stackOverflow source => "call stack overflow at " ++ Hex.marked source.toNat
  | stackUnderflow source => "no subroutine to return from at " ++ Hex.marked source.toNat
  | jumpBelowProgram source target =>
    "jump to " ++ Hex.marked target.toNat ++ " below program area at " ++ Hex.marked source.toNat

end Fault

/-- What a machine logs. -/
inductive Event where
  /-- A program is longer than the program area. -/
  | oversized (length : Nat)
  /-- A program was loaded; the length is what fitted. -/
  | loaded (length : Nat)
  | fetched (source : UInt16) (i : Instruction)
  /-- A call into machine code was ignored. -/
  | ignoredMachineCode (target : Address)
  /-- A word without a meaning was ignored. -/
  | ignoredUnknown (w : Opcode)
  | halted (f : Fault)
  deriving DecidableEq, Repr

namespace Event

/-- How much an event matters. -/
def level : Event → Log.Level
  | oversized _ => .warn
  | loaded _ => .info
  | fetched .. => .trace
  | ignoredMachineCode _ => .debug
  | ignoredUnknown _ => .debug
  | halted _ => .error

def message : Event → String
  | oversized length =>
    "program is " ++ toString length ++ " bytes long; only the first " ++
      toString Layout.programCapacity ++ " will be loaded"
  | loaded length => "loaded " ++ toString length ++ " byte program"
  | fetched source i => Hex.marked source.toNat ++ ": " ++ i.text
  | ignoredMachineCode target => "ignoring machine code routine at " ++ Hex.marked target.val
  | ignoredUnknown w => "ignoring unknown opcode " ++ w.text
  | halted f => f.message

end Event

@[ext] structure Machine where
  options : Options
  memory : Memory
  display : Display
  /-- Whether the last cycle changed the display. -/
  redraw : Bool
  keypad : Keypad
  registers : Registers
  /-- The register `I`. -/
  index : UInt16
  timers : Timers
  /-- The wall clock that drives the timers. -/
  clock : Clock
  pc : UInt16
  /-- The return addresses, innermost first. -/
  stack : List UInt16
  /-- The fault that halted the machine, if one did. -/
  fault : Option Fault
  deriving DecidableEq

/-- A machine after something was done to it, with what happened on the way. -/
structure Outcome where
  machine : Machine
  /-- The fault, if there was one. -/
  fault : Option Fault := none
  /-- What was logged, in order. -/
  log : List Event := []
  deriving DecidableEq

namespace Machine

/-- A machine before any program is loaded. -/
def new (options : Options) : Machine where
  options := options
  memory := .initial
  display := .blank
  redraw := false
  keypad := .released
  registers := .zero
  index := 0
  timers := {}
  clock := { frequency := options.timerFrequency }
  pc := UInt16.ofNat Layout.programStart
  stack := []
  fault := none

def halted (m : Machine) : Bool := m.fault.isSome

def reg (m : Machine) (r : Register) : UInt8 := m.registers.get r

def setReg (m : Machine) (r : Register) (b : UInt8) : Machine :=
  { m with registers := m.registers.set r b }

/-- The machine with the flag register set to one or zero. -/
def setFlag (m : Machine) (flag : Bool) : Machine := m.setReg .vF (if flag then 1 else 0)

/-- The address of the instruction that was just fetched. -/
def source (m : Machine) : UInt16 := m.pc - 2

/-- The word at the program counter. -/
def opcode (m : Machine) : Opcode :=
  .ofBytes (m.memory.read (.wrap m.pc)) (m.memory.read (.wrap (m.pc + 1)))

end Machine

end Chip8
