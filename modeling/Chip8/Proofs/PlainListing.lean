import Chip8.Proofs.Encoding
import Chip8.Proofs.Rows
import Chip8.Proofs.Statements
import Chip8.Proofs.Writers

/-!
# The plain listing determines the instructions

The lines of the plain listing are those of its rows, and a line shows its instruction in a way
that no other instruction has. The text of a plain listing is therefore as good as the instructions
of its program: it leaves open only what the decoder ignores.

## Main definitions

* `Listing.plainBody` — a line without its line feed

## Main results

* `Listing.lines_dumped` — the lines of the plain listing
* `Listing.dumped_eq_iff` — which programs have the same plain listing
-/

namespace Chip8.Listing

open Disassembly (Row)

variable {base : UInt16} {p q : List UInt8} {k : Nat}

/-- A line of the plain listing without its line feed. -/
def plainBody (base : UInt16) (r : Row) : String :=
  Hex.text 3 (base + r.offset).toNat ++ gap ++ r.statement.columns

theorem oneLine_plainBody (base : UInt16) (r : Row) : Text.OneLine (plainBody base r) := by
  have hgap : Text.OneLine gap := by decide
  exact ((Text.oneLine_hex _ _).append hgap).append (Statement.oneLine_columns r.instruction)

/-- Behind its address, a line shows which instruction it is. -/
theorem plainBody_row_inj {v w : Opcode}
    (h : plainBody base (Disassembly.row k v) = plainBody base (Disassembly.row k w)) :
    Instruction.decode v = Instruction.decode w :=
  Instruction.columns_inj (String.append_right_inj _ |>.mp h)

theorem plain_eq (p : List UInt8) (base : UInt16) :
    plain p base = ((Disassembly.rows p).map (plainBody base)).map (· ++ "\n") := by
  rw [List.map_map]
  rfl

/-- The lines of the plain listing, one for each row. -/
theorem lines_dumped (p : List UInt8) (base : UInt16) :
    Text.lines (dumped p base) =
      (Disassembly.rows p).map fun r => (plainBody base r).toList := by
  have hbodies : ∀ b ∈ (Disassembly.rows p).map (plainBody base), Text.OneLine b := by
    intro b hb
    obtain ⟨r, -, rfl⟩ := List.mem_map.mp hb
    exact oneLine_plainBody base r
  rw [dumped_eq_join, plain_eq, Text.lines_join hbodies, List.map_map]
  rfl

/-- Programs with the same plain listing have as many words listed, and those decode alike. -/
theorem decode_wordAt_of_dumped_eq (h : dumped p base = dumped q base) :
    Disassembly.listed p = Disassembly.listed q ∧
      ∀ k < Disassembly.listed p,
        Instruction.decode (Disassembly.wordAt p k) =
          Instruction.decode (Disassembly.wordAt q k) := by
  -- the texts have the same lines, and the lines of a program are those of its rows
  have hlines := congrArg Text.lines h
  rw [lines_dumped, lines_dumped] at hlines
  have hlisted : Disassembly.listed p = Disassembly.listed q := by
    have hlength := congrArg List.length hlines
    rwa [List.length_map, List.length_map, Disassembly.length_rows,
      Disassembly.length_rows] at hlength
  refine ⟨hlisted, fun k hk => ?_⟩
  have hline := congrArg (·[k]?) hlines
  simp only [List.getElem?_map, Disassembly.getElem?_rows hk,
    Disassembly.getElem?_rows (hlisted ▸ hk), Option.map_some, Option.some.injEq] at hline
  exact plainBody_row_inj (String.toList_inj.mp hline)

/-- Rows of words that decode alike have the same line. -/
theorem plainLine_row_congr {v w : Opcode}
    (h : Instruction.decode v = Instruction.decode w) :
    plainLine base (Disassembly.row k v) = plainLine base (Disassembly.row k w) := by
  rw [plainLine, plainLine, Row.statement, Row.statement, Row.instruction, Row.instruction,
    Disassembly.row, Disassembly.row, h]

theorem plain_congr (hlisted : Disassembly.listed p = Disassembly.listed q)
    (h : ∀ k < Disassembly.listed p,
      Instruction.decode (Disassembly.wordAt p k) = Instruction.decode (Disassembly.wordAt q k)) :
    plain p base = plain q base := by
  rw [plain, plain, Disassembly.rows_eq_map_range, Disassembly.rows_eq_map_range, List.map_map,
    List.map_map, ← hlisted]
  exact List.map_congr_left fun k hk => plainLine_row_congr (h k (List.mem_range.mp hk))

/-- **The plain listing determines the instructions, and nothing but them.** For every base, two
programs have the same plain listing exactly if as many of their words are listed, and each word of
one is alike to the word of the other at the same place: they are equal, or they differ only in bits
that the decoder ignores. -/
theorem dumped_eq_iff (base : UInt16) (p q : List UInt8) :
    dumped p base = dumped q base ↔
      min (p.length / 2) 0x8000 = min (q.length / 2) 0x8000 ∧
        ∀ k < min (p.length / 2) 0x8000,
          (Disassembly.wordAt p k).Alike (Disassembly.wordAt q k) := by
  constructor
  · intro h
    obtain ⟨hlisted, hwords⟩ := decode_wordAt_of_dumped_eq h
    exact ⟨hlisted, fun k hk => Instruction.decode_eq_decode_iff.mp (hwords k hk)⟩
  · rintro ⟨hlisted, halike⟩
    have hplain : plain p base = plain q base :=
      plain_congr hlisted fun k hk => Instruction.decode_eq_decode_iff.mpr (halike k hk)
    rw [dumped_eq_join, dumped_eq_join, hplain]

end Chip8.Listing
