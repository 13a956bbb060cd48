import Chip8.Opcode

/-!
# Instructions

The instructions of the machine, grouped by what they do: the six skips share one shape, and so
do the seven operations on two registers and the two shifts. Words without a meaning are
instructions too; it is up to the reader of an instruction to decide what to do with them.

## Main definitions

* `Condition` — when a skip skips
* `BinaryOp` — what is done with two registers
* `Shift` — the direction of a shift
* `Instruction` — one instruction with its operands
-/

namespace Chip8

/-- When a skip leaves out the next instruction. -/
inductive Condition where
  /-- `Vx` holds the byte (`SE Vx, byte`). -/
  | isByte (x : Register) (b : UInt8)
  /-- `Vx` does not hold the byte (`SNE Vx, byte`). -/
  | notByte (x : Register) (b : UInt8)
  /-- `Vx` and `Vy` hold the same (`SE Vx, Vy`). -/
  | same (x y : Register)
  /-- `Vx` and `Vy` differ (`SNE Vx, Vy`). -/
  | differ (x y : Register)
  /-- The key that `Vx` names is held (`SKP Vx`). -/
  | held (x : Register)
  /-- The key that `Vx` names is not held, or `Vx` names no key (`SKNP Vx`). -/
  | notHeld (x : Register)
  deriving DecidableEq, Repr

/-- What is done with `Vx` and `Vy`; the result goes to `Vx`. -/
inductive BinaryOp where
  | copy
  | or
  | and
  | xor
  /-- `Vx + Vy`, with a flag. -/
  | add
  /-- `Vx - Vy`, with a flag. -/
  | sub
  /-- `Vy - Vx`, with a flag. -/
  | subFrom
  deriving DecidableEq, Repr

/-- The direction of a shift by one bit. -/
inductive Shift where
  | right
  | left
  deriving DecidableEq, Repr

/-- One instruction with its operands. -/
inductive Instruction where
  /-- Clear the display (`CLS`). -/
  | clear
  /-- Return from a subroutine (`RET`). -/
  | ret
  /-- Call a routine in machine code (`SYS`); nothing is done. -/
  | machineCode (target : Address)
  /-- Go on at an address (`JMP`). -/
  | jump (target : Address)
  /-- Call a subroutine (`CALL`). -/
  | call (target : Address)
  /-- Go on at an address plus `V0` (`JMP V0`). -/
  | jumpOffset (base : Address)
  /-- Leave out the next instruction if a condition holds (`SE`, `SNE`, `SKP`, `SKNP`). -/
  | skip (c : Condition)
  /-- Put a byte into `Vx` (`LD Vx, byte`). -/
  | setByte (x : Register) (b : UInt8)
  /-- Add a byte to `Vx`, without a flag (`ADD Vx, byte`). -/
  | addByte (x : Register) (b : UInt8)
  /-- Combine two registers (`LD`, `OR`, `AND`, `XOR`, `ADD`, `SUB`, `SUBN`). -/
  | binary (op : BinaryOp) (x y : Register)
  /-- Shift `Vx` by one bit (`SHR`, `SHL`). -/
  | shift (s : Shift) (x : Register)
  /-- Put an address into `I` (`LD I`). -/
  | setIndex (target : Address)
  /-- Add `Vx` to `I` (`ADD I, Vx`). -/
  | addIndex (x : Register)
  /-- Point `I` to the glyph of `Vx` (`LD F, Vx`). -/
  | pointGlyph (x : Register)
  /-- Put a random byte, masked, into `Vx` (`RND`). -/
  | random (x : Register) (mask : UInt8)
  /-- Draw the sprite at `I` with its corner at `(Vx, Vy)` (`DRAW`). -/
  | draw (x y : Register) (rows : Nibble)
  /-- Put the delay timer into `Vx` (`LD Vx, DT`). -/
  | readDelay (x : Register)
  /-- Wait for a key and put it into `Vx` (`LD Vx, K`). -/
  | awaitKey (x : Register)
  /-- Set the delay timer to `Vx` (`LD DT, Vx`). -/
  | setDelay (x : Register)
  /-- Set the sound timer to `Vx` (`LD ST, Vx`). -/
  | setSound (x : Register)
  /-- Store the decimal digits of `Vx` at `I` (`LD B, Vx`). -/
  | storeDigits (x : Register)
  /-- Store `V0` to `Vx` at `I` (`LD [I], Vx`). -/
  | store (x : Register)
  /-- Load `V0` to `Vx` from `I` (`LD Vx, [I]`). -/
  | restore (x : Register)
  /-- A word without a meaning; nothing is done. -/
  | unknown (w : Opcode)
  deriving DecidableEq, Repr

end Chip8
