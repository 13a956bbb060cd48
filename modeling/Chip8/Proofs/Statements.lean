import Chip8.Instruction.Assembly
import Chip8.Proofs.Lines

/-!
# Reading statements

Several instructions share a mnemonic, and a listing shows each only as text. No two of them have
the same text: what an operand is shows in how it is written, and what an instruction is shows in
its mnemonic together with the kinds of its operands. A statement that was written into a listing
can therefore be read back.

## Main definitions

* `Operand.ofText?` — reads an operand
* `Statement.instruction?` — the instruction that a statement stands for
* `Instruction.ofColumns?` — reads an instruction as a listing shows it

## Main results

* `Operand.ofText?_text`, `Statement.instruction?_statement` — reading gives back what was written
* `Instruction.ofColumns?_columns` — an instruction is read back from a listing
* `Instruction.columns_inj` — no two instructions look alike in a listing
-/

namespace Chip8

/-! ### Operands -/

namespace Operand

/-- Reads an operand. Behind a dollar sign the number of digits tells what the number is. -/
def ofText? : List Char → Option Operand
  | ['I'] => some index
  | ['[', 'I', ']'] => some memory
  | ['D', 'T'] => some delayTimer
  | ['S', 'T'] => some soundTimer
  | ['K'] => some key
  | ['F'] => some glyph
  | ['B'] => some digits
  | ['V', c] => some (register ⟨Fin.ofNat 16 (Hex.value [c])⟩)
  | '$' :: cs =>
    match cs.length with
    | 2 => some (byte (UInt8.ofNat (Hex.value cs)))
    | 3 => some (address (Fin.ofNat 0x1000 (Hex.value cs)))
    | 4 => some (word ⟨UInt16.ofNat (Hex.value cs)⟩)
    | _ => none
  | cs => ((List.finRange 16).find? fun n => (toString n.val).toList = cs).map rows

theorem toList_dollar (width n : Nat) :
    ("$" ++ Hex.text width n).toList = '$' :: Hex.padded width n := by
  rw [String.toList_append, Hex.text, String.toList_ofList, String.toList_ofList]
  rfl

theorem toList_name (r : Register) : r.name.toList = ['V', Hex.digit r.index.val] := by
  have hdigits : Hex.padded 1 r.index.val = [Hex.digit r.index.val] := by
    rw [Hex.padded, Hex.digits, if_pos r.index.isLt]
    rfl
  rw [Register.name, String.toList_append, Nibble.text, Hex.text, hdigits, String.toList_ofList,
    String.toList_ofList]
  rfl

/-- Reading an operand gives back what was written. -/
theorem ofText?_text (o : Operand) : ofText? o.text.toList = some o := by
  cases o with
  | register r =>
    have hvalue : Hex.value [Hex.digit r.index.val] = r.index.val := by
      rw [Hex.value, List.foldl_cons, Hex.idxOf_digit r.index.isLt]
      exact Nat.zero_add _
    rw [text, toList_name]
    simp only [ofText?, hvalue, Fin.ofNat_val_eq_self]
  | rows n =>
    have key : ∀ k : Nibble, ofText? (rows k).text.toList = some (rows k) := by decide
    exact key n
  | byte b =>
    have hlength : (Hex.padded 2 b.toNat).length = 2 := Hex.length_padded b.toNat_lt
    rw [text, toList_dollar]
    simp only [ofText?, hlength, Hex.value_padded, UInt8.ofNat_toNat]
  | address a =>
    have hlength : (Hex.padded 3 a.val).length = 3 := Hex.length_padded a.isLt
    rw [text, toList_dollar]
    simp only [ofText?, hlength, Hex.value_padded, Fin.ofNat_val_eq_self]
  | word w =>
    have hlength : (Hex.padded 4 w.word.toNat).length = 4 := Hex.length_padded w.word.toNat_lt
    rw [text, Opcode.text, toList_dollar]
    simp only [ofText?, hlength, Hex.value_padded, UInt16.ofNat_toNat]
  | index | memory | delayTimer | soundTimer | key | glyph | digits => rfl

theorem mapM_ofText?_text (os : List Operand) :
    (os.map (·.text.toList)).mapM ofText? = some os := by
  induction os with
  | nil => rfl
  | cons o os ih =>
    rw [List.map_cons, List.mapM_cons, ih, ofText?_text]
    rfl

theorem text_ne_nil (o : Operand) : o.text.toList ≠ [] := by
  intro h
  have hread := ofText?_text o
  rw [h] at hread
  cases hread

theorem solid_text (o : Operand) : Text.Solid o.text.toList := by
  have hdollar : Text.Solid "$".toList := by decide
  cases o with
  | register r => exact .append (by decide) (Text.solid_hex 1 r.index.val)
  | byte b => exact hdollar.append (Text.solid_hex 2 b.toNat)
  | address a => exact hdollar.append (Text.solid_hex 3 a.val)
  | word w => exact hdollar.append (Text.solid_hex 4 w.word.toNat)
  | rows n =>
    have key : ∀ k : Nibble, Text.Solid (rows k).text.toList := by decide
    exact key n
  | index | memory | delayTimer | soundTimer | key | glyph | digits => decide

end Operand

/-! ### Statements -/

namespace Statement

/-- The instruction that a statement stands for. -/
def instruction? (s : Statement) : Option Instruction :=
  match s.mnemonic, s.operands with
  | "CLS", [] => some .clear
  | "RET", [] => some .ret
  | "SYS", [.address a] => some (.machineCode a)
  | "JMP", [.address a] => some (.jump a)
  | "JMP", [.register _, .address a] => some (.jumpOffset a)
  | "CALL", [.address a] => some (.call a)
  | "SE", [.register x, .byte b] => some (.skip (.isByte x b))
  | "SE", [.register x, .register y] => some (.skip (.same x y))
  | "SNE", [.register x, .byte b] => some (.skip (.notByte x b))
  | "SNE", [.register x, .register y] => some (.skip (.differ x y))
  | "SKP", [.register x] => some (.skip (.held x))
  | "SKNP", [.register x] => some (.skip (.notHeld x))
  | "LD", [.register x, .byte b] => some (.setByte x b)
  | "LD", [.register x, .register y] => some (.binary .copy x y)
  | "LD", [.register x, .delayTimer] => some (.readDelay x)
  | "LD", [.register x, .key] => some (.awaitKey x)
  | "LD", [.register x, .memory] => some (.restore x)
  | "LD", [.index, .address a] => some (.setIndex a)
  | "LD", [.delayTimer, .register x] => some (.setDelay x)
  | "LD", [.soundTimer, .register x] => some (.setSound x)
  | "LD", [.glyph, .register x] => some (.pointGlyph x)
  | "LD", [.digits, .register x] => some (.storeDigits x)
  | "LD", [.memory, .register x] => some (.store x)
  | "ADD", [.register x, .byte b] => some (.addByte x b)
  | "ADD", [.register x, .register y] => some (.binary .add x y)
  | "ADD", [.index, .register x] => some (.addIndex x)
  | "OR", [.register x, .register y] => some (.binary .or x y)
  | "AND", [.register x, .register y] => some (.binary .and x y)
  | "XOR", [.register x, .register y] => some (.binary .xor x y)
  | "SUB", [.register x, .register y] => some (.binary .sub x y)
  | "SUBN", [.register x, .register y] => some (.binary .subFrom x y)
  | "SHR", [.register x] => some (.shift .right x)
  | "SHL", [.register x] => some (.shift .left x)
  | "RND", [.register x, .byte b] => some (.random x b)
  | "DRAW", [.register x, .register y, .rows n] => some (.draw x y n)
  | "UNK", [.word w] => some (.unknown w)
  | _, _ => none

/-- Reading a statement gives back the instruction that it was written for. -/
theorem instruction?_statement (i : Instruction) : i.statement.instruction? = some i := by
  cases i with
  | skip c => cases c <;> rfl
  | binary op x y => cases op <;> rfl
  | shift s x => cases s <;> rfl
  | _ => rfl

/-- The mnemonics of all instructions. -/
def mnemonics : List String :=
  ["CLS", "RET", "SYS", "JMP", "CALL", "SE", "SNE", "SKP", "SKNP", "LD", "ADD", "OR", "AND", "XOR",
    "SUB", "SUBN", "SHR", "SHL", "RND", "DRAW", "UNK"]

theorem mnemonic_mem_mnemonics (i : Instruction) : i.statement.mnemonic ∈ mnemonics := by
  have hcontains : mnemonics.contains i.statement.mnemonic = true := by
    cases i with
    | skip c => cases c <;> rfl
    | binary op x y => cases op <;> rfl
    | shift s x => cases s <;> rfl
    | _ => rfl
  exact List.contains_iff_mem.mp hcontains

/-- A mnemonic is one part of a line, and leaves room for a blank in its column. -/
theorem mnemonic_fits (i : Instruction) :
    Text.Solid i.statement.mnemonic.toList ∧ i.statement.mnemonic.toList ≠ [] ∧
      i.statement.mnemonic.toList.length < mnemonicWidth := by
  have key : ∀ name ∈ mnemonics,
      Text.Solid name.toList ∧ name.toList ≠ [] ∧ name.toList.length < mnemonicWidth := by decide
  exact key _ (mnemonic_mem_mnemonics i)

/-- The operands of a statement are parts of what it is written as. -/
theorem parts_operandText (s : Statement) :
    Text.parts s.operandText.toList = s.operands.map (·.text.toList) := by
  have hparts : ∀ t ∈ s.operands.map (·.text.toList), Text.Solid t ∧ t ≠ [] := by
    intro t ht
    obtain ⟨o, -, rfl⟩ := List.mem_map.mp ht
    exact ⟨o.solid_text, o.text_ne_nil⟩
  have hcomma : ", ".toList = [',', ' '] := rfl
  rw [operandText, String.toList_intercalate, List.map_map, hcomma]
  exact Text.parts_intercalate hparts

/-- In a listing, mnemonic and operands of a statement are set apart. -/
theorem parts_columns (i : Instruction) :
    Text.parts i.statement.columns.toList =
      i.statement.mnemonic.toList :: i.statement.operands.map (·.text.toList) := by
  obtain ⟨hsolid, hne, hlength⟩ := mnemonic_fits i
  have hmnemonic := Text.parts_of_solid hsolid hne
  unfold columns
  split
  · next hnone => rw [hmnemonic, hnone, List.map_nil]
  · -- the column is wider than the mnemonic, so a blank sets the operands apart
    obtain ⟨k, hk⟩ := Nat.exists_eq_add_of_lt hlength
    have hpad : mnemonicWidth - i.statement.mnemonic.toList.length = k + 1 := by omega
    rw [String.toList_append, String.toList_ofList, List.rightpad, hpad, List.replicate_succ,
      List.append_assoc, List.cons_append, Text.parts_append_cons rfl,
      Text.parts_replicate_append rfl, hmnemonic, parts_operandText]
    rfl

/-- A statement stays on its line. -/
theorem oneLine_columns (i : Instruction) : Text.OneLine i.statement.columns := by
  obtain ⟨hsolid, -, -⟩ := mnemonic_fits i
  unfold columns
  split
  · exact hsolid.oneLine
  · have hpad : '\n' ∉ i.statement.mnemonic.toList.rightpad mnemonicWidth ' ' := by
      rw [List.rightpad, List.mem_append, not_or]
      exact ⟨hsolid.oneLine, fun h => absurd (List.eq_of_mem_replicate h) (by decide)⟩
    have hoperands : ∀ t ∈ i.statement.operands.map (·.text.toList), '\n' ∉ t := by
      intro t ht
      obtain ⟨o, -, rfl⟩ := List.mem_map.mp ht
      exact o.solid_text.oneLine
    refine Text.OneLine.append ?_ ?_
    · rwa [Text.OneLine, String.toList_ofList]
    · rw [Text.OneLine, operandText, String.toList_intercalate, List.map_map]
      exact Text.not_mem_intercalate (by decide) hoperands

end Statement

/-! ### Instructions as a listing shows them -/

namespace Instruction

/-- Reads an instruction as a listing shows it. -/
def ofColumns? (cs : List Char) : Option Instruction :=
  match Text.parts cs with
  | [] => none
  | name :: operands => do
    let operands ← operands.mapM Operand.ofText?
    Statement.instruction? ⟨String.ofList name, operands⟩

/-- An instruction is read back from a listing. -/
theorem ofColumns?_columns (i : Instruction) : ofColumns? i.statement.columns.toList = some i := by
  rw [ofColumns?, Statement.parts_columns]
  simp only [Operand.mapM_ofText?_text, String.ofList_toList]
  exact Statement.instruction?_statement i

/-- No two instructions look alike in a listing. -/
theorem columns_inj {i j : Instruction} (h : i.statement.columns = j.statement.columns) :
    i = j := by
  have hread := ofColumns?_columns i
  rw [h, ofColumns?_columns j] at hread
  exact (Option.some.inj hread).symm

end Instruction

end Chip8
