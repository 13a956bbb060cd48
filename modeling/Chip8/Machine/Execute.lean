import Chip8.Machine

/-!
# What instructions do

An instruction is executed as if it had just been fetched, so the program counter already points
behind it. An instruction that faults changes nothing.

The flag of arithmetic and drawing goes to `VF`. It is written before the result, so an operation
whose result goes to `VF` keeps the result and not the flag.

## Main definitions

* `Condition.holds` — whether a skip skips
* `BinaryOp.result`, `BinaryOp.flag?` — what an operation on two registers yields
* `Shift.result`, `Shift.flag` — what a shift yields
* `Machine.execute` — the outcome of an instruction

## Main results

* `BinaryOp.gt_sub_iff`, `Shift.flag_right_iff`, `Shift.flag_left_iff` — flags in terms of numbers
* `Machine.drawSprite_eq` — the flag that is cleared before drawing does not show
-/

namespace Chip8

/-! ### Arithmetic -/

namespace BinaryOp

/-- What an operation puts into `Vx`, for the values of `Vx` and `Vy`. -/
def result : BinaryOp → UInt8 → UInt8 → UInt8
  | copy, _, b => b
  | or, a, b => a ||| b
  | and, a, b => a &&& b
  | xor, a, b => a ^^^ b
  | add, a, b => a + b
  | sub, a, b => a - b
  | subFrom, a, b => b - a

/-- The flag of an operation, if it has one: a carry, or the absence of a borrow and of a zero
result. -/
def flag? : BinaryOp → UInt8 → UInt8 → Option Bool
  | add, a, b => some (b > 0xFF - a)
  | sub, a, b => some (a > b)
  | subFrom, a, b => some (b > a)
  | _, _, _ => none

/-- A byte is more than another one leaves room for exactly if their sum does not fit into a
byte. -/
theorem gt_sub_iff (a b : UInt8) : b > 0xFF - a ↔ 0x100 ≤ a.toNat + b.toNat := by
  have ha := a.toNat_lt
  have hroom : (0xFF - a).toNat = 0xFF - a.toNat :=
    UInt8.toNat_sub_of_le 0xFF a (UInt8.le_iff_toNat_le.mpr (Nat.le_of_lt_succ ha))
  rw [gt_iff_lt, UInt8.lt_iff_toNat_lt, hroom]
  omega

end BinaryOp

namespace Shift

def result : Shift → UInt8 → UInt8
  | right, a => a >>> 1
  | left, a => a <<< 1

/-- The flag of a shift: the bit shifted out, or, for a shift to the left in the old manner,
whether the low four bits are all set. -/
def flag (legacy : Bool) : Shift → UInt8 → Bool
  | right, a => a &&& 1 == 1
  | left, a => if legacy then a &&& 0xF == 0xF else a &&& 0x80 != 0

/-- The lowest bit of a byte, and the lowest four, are what remains of it. -/
theorem toNat_and_one (a : UInt8) : (a &&& 1).toNat = a.toNat % 2 :=
  (UInt8.toNat_and a 1).trans (Nat.and_two_pow_sub_one_eq_mod a.toNat 1)

theorem toNat_and_fifteen (a : UInt8) : (a &&& 0xF).toNat = a.toNat % 0x10 :=
  (UInt8.toNat_and a 0xF).trans (Nat.and_two_pow_sub_one_eq_mod a.toNat 4)

/-- The highest bit of a byte is set in the upper half of all bytes. -/
theorem and_high_ne_zero_iff (a : UInt8) : a &&& 0x80 ≠ 0 ↔ 0x80 ≤ a.toNat := by
  have hlow : (a.toNat &&& 2 ^ 7) % 2 ^ 7 = 0 := by
    rw [Nat.and_mod_two_pow, Nat.mod_self, Nat.and_zero]
  have hhigh : (a.toNat &&& 2 ^ 7) / 2 ^ 7 = a.toNat / 2 ^ 7 % 2 := by
    rw [Nat.and_div_two_pow, Nat.div_self (by decide), Nat.and_one_is_mod]
  have hand : (a &&& 0x80).toNat = a.toNat &&& 2 ^ 7 := UInt8.toNat_and a 0x80
  have ha := a.toNat_lt
  rw [ne_eq, ← UInt8.toNat_inj, hand, UInt8.toNat_zero]
  omega

theorem flag_right_iff (legacy : Bool) (a : UInt8) :
    right.flag legacy a = true ↔ a.toNat % 2 = 1 := by
  rw [flag, beq_iff_eq, ← UInt8.toNat_inj, toNat_and_one]
  rfl

theorem flag_left_iff (legacy : Bool) (a : UInt8) :
    left.flag legacy a = true ↔ if legacy then a.toNat % 0x10 = 0xF else 0x80 ≤ a.toNat := by
  unfold flag
  cases legacy with
  | true =>
    simp only [if_true]
    rw [beq_iff_eq, ← UInt8.toNat_inj, toNat_and_fifteen]
    rfl
  | false =>
    simp only [Bool.false_eq_true, if_false]
    rw [bne_iff_ne, and_high_ne_zero_iff]

end Shift

namespace Machine

/-- Whether the key that a register names is held; numbers above fifteen name no key. -/
def keyHeld (m : Machine) (x : Register) : Bool :=
  match Key.ofByte? (m.reg x) with
  | some k => m.keypad.isHeld k
  | none => false

end Machine

namespace Condition

/-- Whether a condition holds of a machine. -/
def holds (m : Machine) : Condition → Bool
  | isByte x b => m.reg x == b
  | notByte x b => m.reg x != b
  | same x y => m.reg x == m.reg y
  | differ x y => m.reg x != m.reg y
  | held x => m.keyHeld x
  | notHeld x => !m.keyHeld x

end Condition

namespace Machine

/-! ### Single steps -/

/-- The machine as it goes on behind the next instruction. -/
def skipNext (m : Machine) : Machine := { m with pc := m.pc + 2 }

def combine (m : Machine) (op : BinaryOp) (x y : Register) : Machine :=
  let a := m.reg x
  let b := m.reg y
  let flagged :=
    match op.flag? a b with
    | some flag => m.setFlag flag
    | none => m
  -- both operands were read before the flag was written, in case one of them is `VF`
  flagged.setReg x (op.result a b)

def shift (m : Machine) (s : Shift) (x : Register) : Machine :=
  let a := m.reg x
  (m.setFlag (s.flag m.options.legacyShiftFlag a)).setReg x (s.result a)

/-- The sprite that `I` points to. -/
def sprite (m : Machine) (rows : Nibble) : List UInt8 := m.memory.readRun m.index rows.val

def clearDisplay (m : Machine) : Machine :=
  { m with display := .blank, redraw := m.redraw || !m.display.isBlank }

/-- Draws a sprite; the flag says whether a lit pixel was turned off. -/
def drawSprite (m : Machine) (x y : Register) (rows : Nibble) : Machine :=
  -- the corner is read before the flag is cleared, in case `VF` holds a part of it
  let column := (m.reg x).toNat
  let row := (m.reg y).toNat
  let cleared := m.setFlag false
  let drawn := cleared.display.draw (cleared.sprite rows) column row
  { cleared with
    display := drawn.display
    redraw := cleared.redraw || drawn.changed }.setFlag drawn.collision

/-- Only the last flag stays, and the sprite is drawn where the registers said before. -/
theorem drawSprite_eq (m : Machine) (x y : Register) (rows : Nibble) :
    m.drawSprite x y rows =
      let drawn := m.display.draw (m.sprite rows) (m.reg x).toNat (m.reg y).toNat
      { m with
        display := drawn.display
        redraw := m.redraw || drawn.changed }.setFlag drawn.collision := by
  simp only [drawSprite, setFlag, setReg, Registers.set_set]
  rfl

/-- Puts the lowest key held into a register; without one, the instruction is run again. -/
def awaitKey (m : Machine) (x : Register) : Machine :=
  match m.keypad.first? with
  | some k => m.setReg x k.toByte
  | none => { m with pc := m.pc - 2 }

/-- The decimal digits of a byte, hundreds first. -/
def decimalDigits (b : UInt8) : List UInt8 := [b / 100, b % 100 / 10, b % 10]

/-- Writes bytes to memory from `I` on. -/
def storeRun (m : Machine) (bytes : List UInt8) : Machine :=
  { m with memory := m.memory.writeRun m.index bytes }

/-- Loads registers from memory from `I` on. -/
def restoreUpTo (m : Machine) (x : Register) : Machine :=
  { m with registers := m.registers.fill (m.memory.readRun m.index (x.index.val + 1)) }

/-! ### Transfers of control -/

/-- A fault that leaves the machine as it is. -/
def fail (m : Machine) (f : Fault) : Outcome := { machine := m, fault := some f }

/-- Goes on at a target, which must lie in the program area, with the given stack. -/
def jumpTo (m : Machine) (target : UInt16) (stack : List UInt16) : Outcome :=
  if target.toNat < Layout.programStart then m.fail (.jumpBelowProgram m.source target)
  else { machine := { m with pc := target, stack } }

def call (m : Machine) (target : UInt16) : Outcome :=
  -- a full stack is found before a bad target
  if m.stack.length = Layout.stackDepth then m.fail (.stackOverflow m.source)
  else m.jumpTo target (m.pc :: m.stack)

def ret (m : Machine) : Outcome :=
  match m.stack with
  | [] => m.fail (.stackUnderflow m.source)
  -- unlike a jump, a return goes on wherever its caller stood
  | back :: rest => { machine := { m with pc := back, stack := rest } }

/-! ### All instructions -/

/-- The outcome of an instruction; `random` is the byte that `RND` uses. -/
def execute (m : Machine) (random : UInt8) : Instruction → Outcome
  | .clear => { machine := m.clearDisplay }
  | .ret => m.ret
  | .machineCode target => { machine := m, log := [.ignoredMachineCode target] }
  | .jump target => m.jumpTo target.pointer m.stack
  | .call target => m.call target.pointer
  | .jumpOffset base => m.jumpTo (base.pointer + (m.reg .v0).toUInt16) m.stack
  | .skip c => { machine := if c.holds m then m.skipNext else m }
  | .setByte x b => { machine := m.setReg x b }
  | .addByte x b => { machine := m.setReg x (m.reg x + b) }
  | .binary op x y => { machine := m.combine op x y }
  | .shift s x => { machine := m.shift s x }
  | .setIndex target => { machine := { m with index := target.pointer } }
  | .addIndex x => { machine := { m with index := m.index + (m.reg x).toUInt16 } }
  | .pointGlyph x => { machine := { m with index := Font.address (m.reg x) } }
  | .random x mask => { machine := m.setReg x (random &&& mask) }
  | .draw x y rows => { machine := m.drawSprite x y rows }
  | .readDelay x => { machine := m.setReg x m.timers.delay }
  | .awaitKey x => { machine := m.awaitKey x }
  | .setDelay x => { machine := { m with timers := m.timers.setDelay (m.reg x) } }
  | .setSound x => { machine := { m with timers := m.timers.setSound (m.reg x) } }
  | .storeDigits x => { machine := m.storeRun (decimalDigits (m.reg x)) }
  | .store x => { machine := m.storeRun (m.registers.upTo x) }
  | .restore x => { machine := m.restoreUpTo x }
  | .unknown w => { machine := m, log := [.ignoredUnknown w] }

end Machine

end Chip8
