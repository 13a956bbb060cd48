import Chip8.Instruction.Encoding
import Chip8.Instruction.Assembly

/-!
# Disassembly

A program is read as a row of words, two bytes each, from its first byte on, whether they are
code or data. A last byte without a partner is no word. Offsets have sixteen bits, so at most
32768 words are listed.

## Main definitions

* `Disassembly.words` — the words of a row of bytes
* `Disassembly.Row` — a word at its offset
* `Disassembly.Row.isUnknown` — whether that word has no meaning
* `Disassembly.rows` — the rows of a program
-/

namespace Chip8.Disassembly

/-- How many words are listed at most, one for each even offset of sixteen bits. -/
def maxWords : Nat := 0x8000

/-- The words of a row of bytes; a last byte without a partner is left out. -/
def words : List UInt8 → List Opcode
  | high :: low :: rest => .ofBytes high low :: words rest
  | _ => []

/-- A word of a program and where it stands. -/
structure Row where
  /-- The place of the word's first byte, counted from the start of the program. -/
  offset : UInt16
  opcode : Opcode
  deriving DecidableEq, Repr

namespace Row

def instruction (r : Row) : Instruction := .decode r.opcode

/-- How the instruction of a row is written. -/
def statement (r : Row) : Statement := r.instruction.statement

/-- Whether the word of a row has no meaning, by its mnemonic. -/
def isUnknown (r : Row) : Bool := r.statement.mnemonic == "UNK"

theorem isUnknown_eq (r : Row) : r.isUnknown = r.instruction.isUnknown :=
  r.instruction.mnemonic_beq_unk

end Row

/-- The row of the `k`-th word. -/
def row (k : Nat) (w : Opcode) : Row := ⟨UInt16.ofNat (2 * k), w⟩

def rows (program : List UInt8) : List Row :=
  (words (program.take (2 * maxWords))).mapIdx row

/-! ### Words -/

theorem length_words (program : List UInt8) : (words program).length = program.length / 2 := by
  fun_induction words program with
  | case1 high low rest ih =>
    simp only [List.length_cons, ih]
    omega
  | case2 program h =>
    match program, h with
    | [], _ => rfl
    | [_], _ => simp
    | a :: b :: rest, h => exact absurd rfl (h a b rest)

/-- The first words of a program are the words of its first bytes. -/
theorem words_take (k : Nat) (program : List UInt8) :
    words (program.take (2 * k)) = (words program).take k := by
  induction k generalizing program with
  | zero => simp [words]
  | succ k ih =>
    match program with
    | [] => simp [words]
    | [_] => simp [words, Nat.mul_succ]
    | high :: low :: rest => simp [words, Nat.mul_succ, ih]

end Chip8.Disassembly
