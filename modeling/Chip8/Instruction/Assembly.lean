import Chip8.Instruction

/-!
# Instructions in assembly language

An instruction is written as a mnemonic and its operands. Registers are written `V0` to `VF`,
addresses with a dollar sign and three digits, bytes with a dollar sign and two, sprite heights in
decimal. A word without a meaning is written `UNK` with the word itself as its operand.

## Main definitions

* `Operand` — what stands behind a mnemonic
* `Statement` — a mnemonic with its operands
* `Statement.text` — in running text, with one space behind the mnemonic
* `Statement.columns` — in listings, with the operands in a column of their own
* `Instruction.statement` — how an instruction is written
-/

namespace Chip8

/-- What stands behind a mnemonic. -/
inductive Operand where
  | register (r : Register)
  | index
  /-- The memory that `I` points to. -/
  | memory
  | delayTimer
  | soundTimer
  /-- The next key pressed. -/
  | key
  /-- The glyph of a digit. -/
  | glyph
  /-- The decimal digits of a byte. -/
  | digits
  | address (a : Address)
  | byte (b : UInt8)
  /-- The height of a sprite. -/
  | rows (n : Nibble)
  | word (w : Opcode)
  deriving DecidableEq, Repr

namespace Operand

/-- An operand as it is written. -/
def text : Operand → String
  | register r => r.name
  | index => "I"
  | memory => "[I]"
  | delayTimer => "DT"
  | soundTimer => "ST"
  | key => "K"
  | glyph => "F"
  | digits => "B"
  | address a => "$" ++ Hex.text 3 a.val
  | byte b => "$" ++ Hex.text 2 b.toNat
  | rows n => toString n.val
  | word w => w.text

end Operand

/-- A mnemonic with its operands. -/
structure Statement where
  mnemonic : String
  operands : List Operand
  deriving DecidableEq, Repr

namespace Statement

/-- The width of the mnemonic's column in a listing. -/
def mnemonicWidth : Nat := 5

/-- The operands with commas between them. -/
def operandText (s : Statement) : String := ", ".intercalate (s.operands.map Operand.text)

/-- A statement in running text: one space behind the mnemonic, none without operands. -/
def text (s : Statement) : String :=
  match s.operands with
  | [] => s.mnemonic
  | _ => s.mnemonic ++ " " ++ s.operandText

/-- A statement in a listing: the mnemonic is filled up to its column, except without operands. -/
def columns (s : Statement) : String :=
  match s.operands with
  | [] => s.mnemonic
  | _ => String.ofList (s.mnemonic.toList.rightpad mnemonicWidth ' ') ++ s.operandText

end Statement

namespace Condition

def statement : Condition → Statement
  | isByte x b => ⟨"SE", [.register x, .byte b]⟩
  | notByte x b => ⟨"SNE", [.register x, .byte b]⟩
  | same x y => ⟨"SE", [.register x, .register y]⟩
  | differ x y => ⟨"SNE", [.register x, .register y]⟩
  | held x => ⟨"SKP", [.register x]⟩
  | notHeld x => ⟨"SKNP", [.register x]⟩

end Condition

namespace BinaryOp

def mnemonic : BinaryOp → String
  | copy => "LD"
  | or => "OR"
  | and => "AND"
  | xor => "XOR"
  | add => "ADD"
  | sub => "SUB"
  | subFrom => "SUBN"

end BinaryOp

namespace Shift

def mnemonic : Shift → String
  | right => "SHR"
  | left => "SHL"

end Shift

namespace Instruction

def statement : Instruction → Statement
  | clear => ⟨"CLS", []⟩
  | ret => ⟨"RET", []⟩
  | machineCode a => ⟨"SYS", [.address a]⟩
  | jump a => ⟨"JMP", [.address a]⟩
  | call a => ⟨"CALL", [.address a]⟩
  | jumpOffset a => ⟨"JMP", [.register .v0, .address a]⟩
  | skip c => c.statement
  | setByte x b => ⟨"LD", [.register x, .byte b]⟩
  | addByte x b => ⟨"ADD", [.register x, .byte b]⟩
  | binary op x y => ⟨op.mnemonic, [.register x, .register y]⟩
  | shift s x => ⟨s.mnemonic, [.register x]⟩
  | setIndex a => ⟨"LD", [.index, .address a]⟩
  | addIndex x => ⟨"ADD", [.index, .register x]⟩
  | pointGlyph x => ⟨"LD", [.glyph, .register x]⟩
  | random x b => ⟨"RND", [.register x, .byte b]⟩
  | draw x y n => ⟨"DRAW", [.register x, .register y, .rows n]⟩
  | readDelay x => ⟨"LD", [.register x, .delayTimer]⟩
  | awaitKey x => ⟨"LD", [.register x, .key]⟩
  | setDelay x => ⟨"LD", [.delayTimer, .register x]⟩
  | setSound x => ⟨"LD", [.soundTimer, .register x]⟩
  | storeDigits x => ⟨"LD", [.digits, .register x]⟩
  | store x => ⟨"LD", [.memory, .register x]⟩
  | restore x => ⟨"LD", [.register x, .memory]⟩
  | unknown w => ⟨"UNK", [.word w]⟩

/-- An instruction in running text. -/
def text (i : Instruction) : String := i.statement.text

def isUnknown : Instruction → Bool
  | unknown _ => true
  | _ => false

/-- The mnemonic tells whether a word has a meaning. -/
theorem mnemonic_beq_unk (i : Instruction) : (i.statement.mnemonic == "UNK") = i.isUnknown := by
  cases i with
  | skip c => cases c <;> rfl
  | binary op x y => cases op <;> rfl
  | shift s x => cases s <;> rfl
  | _ => rfl

end Instruction

end Chip8
