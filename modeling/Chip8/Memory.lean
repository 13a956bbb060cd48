import Chip8.Font

/-!
# Memory

Memory is 4096 bytes. Reads and writes through a 16-bit pointer wrap: the pointer counts modulo
2 ^ 16, and each access takes it modulo 4096.

## Main definitions

* `Memory.read`, `Memory.write` — one byte
* `Memory.readRun`, `Memory.writeRun` — bytes one behind the other, from a pointer on
* `Memory.initial` — the memory of a new machine
* `Memory.load` — memory with a program in the program area

## Main results

* `Memory.read_write`, `Memory.read_load` — what is read after a change
* `Memory.ext` — a memory is determined by its bytes
-/

namespace Chip8

/-- 4096 bytes. -/
structure Memory where
  bytes : Vector UInt8 0x1000
  deriving DecidableEq

namespace Memory

/-- The memory that holds `f a` at every address `a`. -/
def ofFn (f : Address → UInt8) : Memory := ⟨Vector.ofFn f⟩

def read (m : Memory) (a : Address) : UInt8 := m.bytes[a.val]

def write (m : Memory) (a : Address) (b : UInt8) : Memory := ⟨m.bytes.set a.val b a.isLt⟩

/-- The bytes from a pointer on. -/
def readRun (m : Memory) (pointer : UInt16) : Nat → List UInt8
  | 0 => []
  | n + 1 => m.read (.wrap pointer) :: readRun m (pointer + 1) n

/-- Memory with bytes written one behind the other, from a pointer on. -/
def writeRun (m : Memory) (pointer : UInt16) : List UInt8 → Memory
  | [] => m
  | b :: rest => writeRun (m.write (.wrap pointer) b) (pointer + 1) rest

/-- The memory of a new machine: the font and zeros. -/
def initial : Memory := ofFn Font.byteAt

/-- Memory with a program in the program area: what does not fit is cut, what is left of the area
is cleared, and the interpreter area stays as it is. -/
def load (m : Memory) (program : List UInt8) : Memory :=
  let bytes := program.toArray
  ofFn fun a =>
    if a.val < Layout.programStart then m.read a else bytes.getD (a.val - Layout.programStart) 0

/-! ### What is read -/

@[ext] theorem ext {m m' : Memory} (h : ∀ a, m.read a = m'.read a) : m = m' := by
  cases m; cases m'
  congr 1
  exact Vector.ext fun i hi => h ⟨i, hi⟩

@[simp] theorem read_ofFn (f : Address → UInt8) (a : Address) : (ofFn f).read a = f a := by
  simp [read, ofFn]

theorem read_write (m : Memory) (a c : Address) (b : UInt8) :
    (m.write a b).read c = if c = a then b else m.read c := by
  simp only [read, write, Vector.getElem_set, Fin.ext_iff, eq_comm]

@[simp] theorem read_write_same (m : Memory) (a : Address) (b : UInt8) :
    (m.write a b).read a = b := by
  simp [read_write]

theorem read_write_of_ne (m : Memory) {a c : Address} (b : UInt8) (h : c ≠ a) :
    (m.write a b).read c = m.read c := by
  simp [read_write, h]

@[simp] theorem read_initial (a : Address) : initial.read a = Font.byteAt a := read_ofFn _ _

theorem read_load (m : Memory) (program : List UInt8) (a : Address) :
    (m.load program).read a =
      if a.val < Layout.programStart then m.read a
      else program.getD (a.val - Layout.programStart) 0 := by
  simp [load]

@[simp] theorem length_readRun (m : Memory) (pointer : UInt16) (n : Nat) :
    (m.readRun pointer n).length = n := by
  induction n generalizing pointer with
  | zero => rfl
  | succ n ih => simp [readRun, ih]

end Memory

end Chip8
