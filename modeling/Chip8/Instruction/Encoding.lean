import Chip8.Instruction

/-!
# The encoding of instructions

Every word decodes to exactly one instruction. Some instructions have several words: the second
nibble of `CLS` and `RET`, the last nibble of the register comparisons and the third nibble of
the shifts are not looked at. Such a free nibble is the instruction's *filler*.

## Main definitions

* `Instruction.decode` — the instruction of a word
* `Instruction.Filler` — what an instruction's words leave free
* `Instruction.encode` — the word of an instruction with a given filler
* `BinaryOp.code`, `Shift.code` — the last nibble of the operations on registers
-/

namespace Chip8

namespace BinaryOp

def code : BinaryOp → Nibble
  | copy => 0
  | or => 1
  | and => 2
  | xor => 3
  | add => 4
  | sub => 5
  | subFrom => 7

end BinaryOp

namespace Shift

def code : Shift → Nibble
  | right => 6
  | left => 14

end Shift

namespace Instruction

/-! ### Decoding -/

/-- The words that start with `0`: two of them have a meaning of their own. -/
def decodeSystem (w : Opcode) : Instruction :=
  match w.byte.toNat with
  | 0xE0 => clear
  | 0xEE => ret
  | _ => machineCode w.address

/-- The words that start with `8`: the last nibble selects the operation. -/
def decodeArithmetic (w : Opcode) : Instruction :=
  match w.n.val with
  | 0x0 => binary .copy w.vx w.vy
  | 0x1 => binary .or w.vx w.vy
  | 0x2 => binary .and w.vx w.vy
  | 0x3 => binary .xor w.vx w.vy
  | 0x4 => binary .add w.vx w.vy
  | 0x5 => binary .sub w.vx w.vy
  | 0x6 => shift .right w.vx
  | 0x7 => binary .subFrom w.vx w.vy
  | 0xE => shift .left w.vx
  | _ => unknown w

/-- The words that start with `E`: the byte selects one of the two key tests. -/
def decodeKey (w : Opcode) : Instruction :=
  match w.byte.toNat with
  | 0x9E => skip (.held w.vx)
  | 0xA1 => skip (.notHeld w.vx)
  | _ => unknown w

/-- The words that start with `F`: the byte selects what is done with `Vx`. -/
def decodeTransfer (w : Opcode) : Instruction :=
  match w.byte.toNat with
  | 0x07 => readDelay w.vx
  | 0x0A => awaitKey w.vx
  | 0x15 => setDelay w.vx
  | 0x18 => setSound w.vx
  | 0x1E => addIndex w.vx
  | 0x29 => pointGlyph w.vx
  | 0x33 => storeDigits w.vx
  | 0x55 => store w.vx
  | 0x65 => restore w.vx
  | _ => unknown w

/-- The instruction of a word. -/
def decode (w : Opcode) : Instruction :=
  match w.category.val with
  | 0x0 => decodeSystem w
  | 0x1 => jump w.address
  | 0x2 => call w.address
  | 0x3 => skip (.isByte w.vx w.byte)
  | 0x4 => skip (.notByte w.vx w.byte)
  | 0x5 => skip (.same w.vx w.vy)
  | 0x6 => setByte w.vx w.byte
  | 0x7 => addByte w.vx w.byte
  | 0x8 => decodeArithmetic w
  | 0x9 => skip (.differ w.vx w.vy)
  | 0xA => setIndex w.address
  | 0xB => jumpOffset w.address
  | 0xC => random w.vx w.byte
  | 0xD => draw w.vx w.vy w.n
  | 0xE => decodeKey w
  | _ => decodeTransfer w

/-! ### Encoding -/

/-- What the words of an instruction leave free: one nibble or nothing. -/
def Filler : Instruction → Type
  | clear | ret | skip (.same ..) | skip (.differ ..) | shift .. => Nibble
  | _ => Unit

/-- The word of an instruction with the free nibble filled in. -/
def encode : (i : Instruction) → i.Filler → Opcode
  | clear, d => .ofByteForm 0x0 d 0xE0
  | ret, d => .ofByteForm 0x0 d 0xEE
  | machineCode a, _ => .ofAddressForm 0x0 a
  | jump a, _ => .ofAddressForm 0x1 a
  | call a, _ => .ofAddressForm 0x2 a
  | skip (.isByte x b), _ => .ofByteForm 0x3 x.index b
  | skip (.notByte x b), _ => .ofByteForm 0x4 x.index b
  | skip (.same x y), d => .ofNibbles 0x5 x.index y.index d
  | setByte x b, _ => .ofByteForm 0x6 x.index b
  | addByte x b, _ => .ofByteForm 0x7 x.index b
  | binary op x y, _ => .ofNibbles 0x8 x.index y.index op.code
  | shift s x, d => .ofNibbles 0x8 x.index d s.code
  | skip (.differ x y), d => .ofNibbles 0x9 x.index y.index d
  | setIndex a, _ => .ofAddressForm 0xA a
  | jumpOffset a, _ => .ofAddressForm 0xB a
  | random x b, _ => .ofByteForm 0xC x.index b
  | draw x y n, _ => .ofNibbles 0xD x.index y.index n
  | skip (.held x), _ => .ofByteForm 0xE x.index 0x9E
  | skip (.notHeld x), _ => .ofByteForm 0xE x.index 0xA1
  | readDelay x, _ => .ofByteForm 0xF x.index 0x07
  | awaitKey x, _ => .ofByteForm 0xF x.index 0x0A
  | setDelay x, _ => .ofByteForm 0xF x.index 0x15
  | setSound x, _ => .ofByteForm 0xF x.index 0x18
  | addIndex x, _ => .ofByteForm 0xF x.index 0x1E
  | pointGlyph x, _ => .ofByteForm 0xF x.index 0x29
  | storeDigits x, _ => .ofByteForm 0xF x.index 0x33
  | store x, _ => .ofByteForm 0xF x.index 0x55
  | restore x, _ => .ofByteForm 0xF x.index 0x65
  | unknown w, _ => w

end Instruction

end Chip8
