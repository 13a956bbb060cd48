import Mathlib.Data.List.GetD
import Chip8.Disassembly

/-!
# The rows of a program

A program is disassembled by walking through it two bytes at a time. Row `k` of what comes out
holds the word made of bytes `2 * k` and `2 * k + 1`, and its offset is `2 * k`: as many rows are
listed as there are even offsets of sixteen bits, so that no offset wraps.

## Main definitions

* `Disassembly.wordAt` — the word made of a pair of bytes
* `Disassembly.listed` — how many words of a program are listed

## Main results

* `Disassembly.rows_eq_map_range` — the rows one by one
* `Disassembly.toNat_offset_row` — no offset wraps
* `Disassembly.flatMap_bytes_rows` — the rows hold the bytes of the program
-/

namespace Chip8

/-- The two bytes of a word, the high one first. -/
def Opcode.bytes (w : Opcode) : List UInt8 := [w.highByte, w.byte]

theorem Opcode.bytes_ofBytes (high low : UInt8) : (ofBytes high low).bytes = [high, low] := by
  have hlow := low.toNat_lt
  have hhigh : (ofBytes high low).highByte = high := by
    apply UInt8.toNat_inj.mp
    rw [toNat_highByte, toNat_ofBytes]
    omega
  have hbyte : (ofBytes high low).byte = low := by
    apply UInt8.toNat_inj.mp
    rw [toNat_byte, toNat_ofBytes]
    omega
  rw [bytes, hhigh, hbyte]

namespace Disassembly

variable {program : List UInt8} {k : Nat} {r : Row}

/-- The word made of the pair of bytes with the number `k`; a byte that is missing counts as
zero. -/
def wordAt (program : List UInt8) (k : Nat) : Opcode :=
  .ofBytes (program.getD (2 * k) 0) (program.getD (2 * k + 1) 0)

/-- How many words of a program are listed. -/
def listed (program : List UInt8) : Nat := min (program.length / 2) maxWords

/-! ### Words -/

theorem wordAt_cons_cons (high low : UInt8) (rest : List UInt8) (k : Nat) :
    wordAt (high :: low :: rest) (k + 1) = wordAt rest k := by
  simp only [wordAt, Nat.mul_succ, List.getD_cons_succ]

theorem length_div_two_of_short (h : ∀ high low rest, program = high :: low :: rest → False) :
    program.length / 2 = 0 := by
  cases program with
  | nil => rfl
  | cons high rest =>
    cases rest with
    | nil => exact Nat.div_eq_of_lt Nat.one_lt_two
    | cons low rest => exact absurd rfl (h high low rest)

/-- The words of a program are made of its pairs of bytes. -/
theorem words_eq_map_range (program : List UInt8) :
    words program = (List.range (program.length / 2)).map (wordAt program) := by
  fun_induction words program with
  | case1 high low rest ih =>
    have hlength : (high :: low :: rest).length / 2 = rest.length / 2 + 1 := by
      simp only [List.length_cons]
      omega
    rw [hlength, List.range_succ_eq_map, List.map_cons, List.map_map, ih]
    exact congrArg _ (List.map_congr_left fun k _ => (wordAt_cons_cons high low rest k).symm)
  | case2 program h =>
    rw [length_div_two_of_short h]
    rfl

/-- The words hold all bytes of a program but the last, if that stands alone. -/
theorem flatMap_bytes_words (program : List UInt8) :
    (words program).flatMap Opcode.bytes = program.take (2 * (program.length / 2)) := by
  fun_induction words program with
  | case1 high low rest ih =>
    have hlength : 2 * ((high :: low :: rest).length / 2) = 2 * (rest.length / 2) + 2 := by
      simp only [List.length_cons]
      omega
    rw [hlength, List.flatMap_cons, ih, Opcode.bytes_ofBytes]
    rfl
  | case2 program h =>
    rw [length_div_two_of_short h]
    rfl

/-- Bytes put together from words are read as these words. -/
theorem words_flatMap_bytes (ws : List Opcode) : words (ws.flatMap Opcode.bytes) = ws := by
  induction ws with
  | nil => rfl
  | cons w ws ih =>
    have hword : words ((w :: ws).flatMap Opcode.bytes) =
        .ofBytes w.highByte w.byte :: words (ws.flatMap Opcode.bytes) := rfl
    rw [hword, ih, Opcode.ofBytes_fields]

/-! ### Rows -/

/-- As few words are listed as there are offsets, so none wraps. -/
theorem toNat_offset_row (h : k < maxWords) (w : Opcode) : (row k w).offset.toNat = 2 * k := by
  have hk : k < 0x8000 := h
  rw [row, UInt16.toNat_ofNat']
  omega

/-- The rows of a program, one by one. -/
theorem rows_eq_map_range (program : List UInt8) :
    rows program = (List.range (listed program)).map fun k => row k (wordAt program k) := by
  rw [rows, words_take, words_eq_map_range]
  apply List.ext_getElem
  · rw [List.length_mapIdx, List.length_take, List.length_map, List.length_map, List.length_range,
      List.length_range, listed, Nat.min_comm]
  · intro k _ _
    simp only [List.getElem_mapIdx, List.getElem_take, List.getElem_map, List.getElem_range]

theorem length_rows (program : List UInt8) : (rows program).length = listed program := by
  rw [rows_eq_map_range, List.length_map, List.length_range]

theorem getElem?_rows (h : k < listed program) :
    (rows program)[k]? = some (row k (wordAt program k)) := by
  rw [rows_eq_map_range, List.getElem?_map, List.getElem?_range h, Option.map_some]

theorem exists_of_mem_rows (h : r ∈ rows program) :
    ∃ k < listed program, row k (wordAt program k) = r := by
  rw [rows_eq_map_range, List.mem_map] at h
  obtain ⟨k, hk, hrow⟩ := h
  exact ⟨k, List.mem_range.mp hk, hrow⟩

/-- Both bytes of every row lie inside of the program. -/
theorem bytes_of_mem_rows (h : r ∈ rows program) :
    ∃ high low, program[r.offset.toNat]? = some high ∧ program[r.offset.toNat + 1]? = some low ∧
      r.opcode = .ofBytes high low := by
  obtain ⟨k, hk, rfl⟩ := exists_of_mem_rows h
  have hpairs : k < program.length / 2 := Nat.lt_of_lt_of_le hk (Nat.min_le_left _ _)
  have hlow : 2 * k + 1 < program.length := by omega
  have hhigh : 2 * k < program.length := Nat.lt_of_succ_lt hlow
  have hoffset : (row k (wordAt program k)).offset.toNat = 2 * k :=
    toNat_offset_row (Nat.lt_of_lt_of_le hk (Nat.min_le_right _ _)) _
  rw [hoffset]
  refine ⟨program[2 * k], program[2 * k + 1], List.getElem?_eq_getElem hhigh,
    List.getElem?_eq_getElem hlow, ?_⟩
  rw [row, wordAt, List.getD_eq_getElem _ _ hhigh, List.getD_eq_getElem _ _ hlow]

theorem offset_lt_of_mem_rows (h : r ∈ rows program) : r.offset.toNat + 1 < program.length := by
  obtain ⟨-, low, -, hlow, -⟩ := bytes_of_mem_rows h
  exact (List.getElem?_eq_some_iff.mp hlow).1

/-- The rows hold the bytes of the listed words. -/
theorem flatMap_bytes_rows (program : List UInt8) :
    (rows program).flatMap (fun r => r.opcode.bytes) = program.take (2 * listed program) := by
  have hpairs : listed program ≤ program.length / 2 := Nat.min_le_left _ _
  have hwords : words (program.take (2 * listed program)) =
      (List.range (listed program)).map (wordAt program) := by
    rw [words_take, words_eq_map_range, ← List.map_take, List.take_range, Nat.min_eq_left hpairs]
  have hlength : (program.take (2 * listed program)).length = 2 * listed program := by
    rw [List.length_take]
    omega
  have hbytes := flatMap_bytes_words (program.take (2 * listed program))
  rw [hlength, Nat.mul_div_cancel_left _ (by decide), List.take_take, Nat.min_self, hwords,
    List.flatMap_map] at hbytes
  rw [rows_eq_map_range, List.flatMap_map]
  exact hbytes

/-- What lies behind the last listed word does not influence the rows. -/
theorem rows_take (program : List UInt8) : rows (program.take (2 * maxWords)) = rows program := by
  rw [rows, rows, List.take_take, Nat.min_self]

end Disassembly

end Chip8
