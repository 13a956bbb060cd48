import Chip8.Proofs.Encoding
import Chip8.Proofs.ListerRuns
import Chip8.Proofs.Rows
import Chip8.Proofs.Statements

/-!
# The annotated listing shows every byte

The second column of the annotated listing shows the bytes of the program: a word as four digits, a
last byte without a partner as two. Read back line by line, it gives the program, however long the
addresses before it are. Only a program with more words than are listed loses bytes, and a run that
reads such a program warns of it.

## Main definitions

* `Listing.annotatedBody`, `Listing.oddBody` — lines without their line feeds
* `Listing.rawBytes` — the bytes that a column shows
* `Listing.readBack` — the bytes that a listing shows
* `Listing.wordLine`, `Listing.lastLine` — lines in terms of the program

## Main results

* `Listing.lines_written` — the lines of the annotated listing
* `Listing.readBack_written` — it shows all bytes that can be listed
* `Listing.written_take` — what cannot be listed does not show
* `Listing.written_reports_every_byte` — which bytes a listing shows, what is said of the others,
  and what is counted
-/

namespace Chip8.Listing

open Disassembly (Row)

variable {program : List UInt8} {base : Nat}

/-! ### Lines -/

/-- A line of the annotated listing without its line feed. -/
def annotatedBody (base : Nat) (r : Row) : String :=
  Hex.text 3 (base + r.offset.toNat) ++ gap ++ Hex.text 4 r.opcode.word.toNat ++ gap ++
    r.statement.columns

/-- The line of a byte without a partner, without its line feed. -/
def oddBody (address : Nat) (b : UInt8) : String :=
  Hex.text 3 address ++ gap ++ Hex.text 2 b.toNat ++ "    (odd trailing byte)"

/-- The lines of the annotated listing without their line feeds. -/
def annotatedBodies (program : List UInt8) (base : Nat) : List String :=
  (Disassembly.rows program).map (annotatedBody base) ++
    ((trailing? program).map (oddBody (base + (program.length - 1)))).toList

theorem oddLine_eq (address : Nat) (b : UInt8) : oddLine address b = oddBody address b ++ "\n" := by
  have hend : "    (odd trailing byte)\n" = "    (odd trailing byte)" ++ "\n" := rfl
  rw [oddLine, oddBody, hend, ← String.append_assoc]

theorem annotated_eq (program : List UInt8) (base : Nat) :
    annotated program base = (annotatedBodies program base).map (· ++ "\n") := by
  rw [annotated, annotatedBodies, trailingLine?, List.map_append, List.map_map]
  cases trailing? program with
  | none => rfl
  | some b =>
    rw [Option.map_some, Option.map_some, oddLine_eq]
    rfl

theorem oneLine_annotatedBody (base : Nat) (r : Row) : Text.OneLine (annotatedBody base r) := by
  have hgap : Text.OneLine gap := by decide
  have haddress := Text.oneLine_hex 3 (base + r.offset.toNat)
  have hword := Text.oneLine_hex 4 r.opcode.word.toNat
  exact (((haddress.append hgap).append hword).append hgap).append
    (Statement.oneLine_columns r.instruction)

theorem oneLine_oddBody (address : Nat) (b : UInt8) : Text.OneLine (oddBody address b) := by
  have hgap : Text.OneLine gap := by decide
  have hend : Text.OneLine "    (odd trailing byte)" := by decide
  exact (((Text.oneLine_hex 3 address).append hgap).append (Text.oneLine_hex 2 b.toNat)).append hend

theorem oneLine_of_mem_annotatedBodies {body : String} (h : body ∈ annotatedBodies program base) :
    Text.OneLine body := by
  rcases List.mem_append.mp h with hrow | hodd
  · obtain ⟨r, -, rfl⟩ := List.mem_map.mp hrow
    exact oneLine_annotatedBody base r
  · obtain ⟨b, -, rfl⟩ := Option.map_eq_some_iff.mp (Option.mem_toList.mp hodd)
    exact oneLine_oddBody _ b

/-- The lines of the annotated listing. -/
theorem lines_written (program : List UInt8) (base : Nat) :
    Text.lines (written program base) = (annotatedBodies program base).map String.toList := by
  rw [written_eq_join, annotated_eq, Text.lines_join fun b => oneLine_of_mem_annotatedBodies]

/-! ### The raw column -/

/-- The bytes that a column shows: four digits are a word, two digits are a byte. -/
def rawBytes (digits : List Char) : List UInt8 :=
  match digits.length with
  | 4 => Opcode.bytes ⟨UInt16.ofNat (Hex.value digits)⟩
  | 2 => [UInt8.ofNat (Hex.value digits)]
  | _ => []

/-- The bytes that a listing shows in its second column, line by line. -/
def readBack (text : String) : List UInt8 :=
  (Text.lines text).flatMap fun line => rawBytes (Text.column 1 line)

theorem rawBytes_word (w : Opcode) : rawBytes (Hex.padded 4 w.word.toNat) = w.bytes := by
  have hlength : (Hex.padded 4 w.word.toNat).length = 4 := Hex.length_padded w.word.toNat_lt
  simp only [rawBytes, hlength, Hex.value_padded, UInt16.ofNat_toNat]

theorem rawBytes_byte (b : UInt8) : rawBytes (Hex.padded 2 b.toNat) = [b] := by
  have hlength : (Hex.padded 2 b.toNat).length = 2 := Hex.length_padded b.toNat_lt
  simp only [rawBytes, hlength, Hex.value_padded, UInt8.ofNat_toNat]

/-- The second column of a line with an address, digits and something behind them. -/
theorem column_one_line (address width n : Nat) {behind : String} {rest : List Char}
    (hbehind : behind.toList = ' ' :: rest) :
    Text.column 1 (Hex.text 3 address ++ gap ++ Hex.text width n ++ behind).toList =
      Hex.padded width n := by
  have hgap : gap.toList = [' ', ' '] := rfl
  have haddress : ' ' ∉ (Hex.text 3 address).toList := (Text.solid_hex _ _).not_mem rfl
  have hdigits : ' ' ∉ (Hex.text width n).toList := (Text.solid_hex _ _).not_mem rfl
  have hline : (Hex.text 3 address ++ gap ++ Hex.text width n ++ behind).toList =
      (Hex.text 3 address).toList ++ ' ' :: ' ' :: ((Hex.text width n).toList ++ ' ' :: rest) := by
    simp only [String.toList_append, hgap, hbehind, List.append_assoc, List.cons_append,
      List.nil_append]
  rw [hline, Text.column_one haddress hdigits, Hex.text, String.toList_ofList]

theorem rawBytes_annotatedBody (base : Nat) (r : Row) :
    rawBytes (Text.column 1 (annotatedBody base r).toList) = r.opcode.bytes := by
  have hbehind : (gap ++ r.statement.columns).toList = ' ' :: ' ' :: r.statement.columns.toList :=
    String.toList_append
  rw [annotatedBody, String.append_assoc, column_one_line _ _ _ hbehind, rawBytes_word]

theorem rawBytes_oddBody (address : Nat) (b : UInt8) :
    rawBytes (Text.column 1 (oddBody address b).toList) = [b] := by
  have hbehind : "    (odd trailing byte)".toList = ' ' :: "   (odd trailing byte)".toList := rfl
  rw [oddBody, column_one_line _ _ _ hbehind, rawBytes_byte]

/-- The bytes of the rows and the last byte, if it stands alone, are all that can be listed. -/
theorem take_listed_append_trailing? (program : List UInt8) :
    program.take (2 * Disassembly.listed program) ++ (trailing? program).toList =
      program.take 0x10000 := by
  unfold trailing?
  split
  · next h =>
    obtain ⟨hodd, hshort⟩ := h
    have hshort' : program.length < 0x10000 := hshort
    have hlisted : 2 * Disassembly.listed program = program.length - 1 := by
      rw [Disassembly.listed, Disassembly.maxWords]
      omega
    have hne : program ≠ [] := by
      rintro rfl
      exact absurd hodd (by decide)
    rw [hlisted, ← List.dropLast_eq_take, List.getLast?_eq_some_getLast hne, Option.toList_some,
      List.dropLast_concat_getLast hne, List.take_of_length_le (Nat.le_of_lt hshort')]
  · next h =>
    -- the rows end with the program, or with the last offset of sixteen bits
    have hlisted : 2 * Disassembly.listed program = min program.length 0x10000 := by
      rw [Disassembly.maxWords] at h
      rw [Disassembly.listed, Disassembly.maxWords]
      omega
    rw [hlisted, Option.toList_none, List.append_nil, Nat.min_comm, ← List.take_eq_take_min]

/-- A listing shows all bytes that can be listed. -/
theorem readBack_written (program : List UInt8) (base : Nat) :
    readBack (written program base) = program.take 0x10000 := by
  rw [readBack, lines_written, List.flatMap_map, annotatedBodies, List.flatMap_append,
    List.flatMap_map]
  simp only [rawBytes_annotatedBody]
  rw [Disassembly.flatMap_bytes_rows, ← take_listed_append_trailing?]
  cases trailing? program with
  | none => rfl
  | some b =>
    rw [Option.map_some, Option.toList_some, Option.toList_some, List.flatMap_singleton,
      rawBytes_oddBody]

theorem readBack_written_of_le (hle : program.length ≤ 0x10000) (base : Nat) :
    readBack (written program base) = program := by
  rw [readBack_written, List.take_of_length_le hle]

/-! ### What is listed -/

/-- The line of the word with the number `k`. -/
def wordLine (program : List UInt8) (base k : Nat) : String :=
  Hex.text 3 (base + 2 * k) ++ "  " ++ Hex.text 4 (Disassembly.wordAt program k).word.toNat ++
    "  " ++ (Instruction.decode (Disassembly.wordAt program k)).statement.columns ++ "\n"

/-- The line of the last byte. -/
def lastLine (program : List UInt8) (base : Nat) : String :=
  Hex.text 3 (base + (program.length - 1)) ++ "  " ++
    Hex.text 2 (program.getD (program.length - 1) 0).toNat ++ "    (odd trailing byte)\n"

theorem trailing?_of_le (hle : program.length ≤ 0x10000) :
    trailing? program =
      if program.length % 2 = 1 then some (program.getD (program.length - 1) 0) else none := by
  unfold trailing?
  by_cases hodd : program.length % 2 = 1
  · have hshort : program.length < 2 * Disassembly.maxWords := by
      rw [Disassembly.maxWords]
      omega
    have hlast : program.length - 1 < program.length := by omega
    rw [if_pos ⟨hodd, hshort⟩, if_pos hodd, List.getLast?_eq_getElem?,
      List.getElem?_eq_getElem hlast, List.getD_eq_getElem _ _ hlast]
  · rw [if_neg fun h => hodd h.1, if_neg hodd]

/-- The lines of the rows, if no word is missing: their addresses do not wrap. -/
theorem map_annotatedLine_rows (hle : program.length ≤ 0x10000) (base : Nat) :
    (Disassembly.rows program).map (annotatedLine base) =
      (List.range (program.length / 2)).map (wordLine program base) := by
  have hlisted : Disassembly.listed program = program.length / 2 := by
    rw [Disassembly.listed, Disassembly.maxWords]
    omega
  rw [Disassembly.rows_eq_map_range, List.map_map, hlisted]
  refine List.map_congr_left fun k hk => ?_
  have hword : k < Disassembly.maxWords := by
    rw [List.mem_range] at hk
    rw [Disassembly.maxWords]
    omega
  rw [Function.comp_apply, annotatedLine, Disassembly.toNat_offset_row hword]
  rfl

/-- The text of a listing without a word missing. -/
theorem written_of_le (hle : program.length ≤ 0x10000) (base : Nat) :
    written program base =
      String.join ((List.range (program.length / 2)).map (wordLine program base) ++
        if program.length % 2 = 1 then [lastLine program base] else []) := by
  rw [written_eq_join, annotated, map_annotatedLine_rows hle, trailingLine?, trailing?_of_le hle]
  by_cases hodd : program.length % 2 = 1
  · rw [if_pos hodd, if_pos hodd]
    rfl
  · rw [if_neg hodd, if_neg hodd]
    rfl

/-- What cannot be listed does not show. -/
theorem written_take (program : List UInt8) (base : Nat) :
    written (program.take 0x10000) base = written program base := by
  rcases Nat.lt_or_ge 0x10000 program.length with hgt | hle
  · have hlength : (program.take 0x10000).length = 0x10000 :=
      List.length_take_of_le (Nat.le_of_lt hgt)
    have hcut : trailing? (program.take 0x10000) = none := by
      rw [trailing?, hlength]
      exact if_neg (by decide)
    have hlong : trailing? program = none :=
      if_neg fun h => Nat.lt_irrefl _ (Nat.lt_trans h.2 hgt)
    have hrows : Disassembly.rows (program.take 0x10000) = Disassembly.rows program :=
      Disassembly.rows_take program
    rw [written_eq_join, written_eq_join, annotated, annotated, hrows, trailingLine?,
      trailingLine?, hcut, hlong]
    rfl
  · rw [List.take_of_length_le hle]

/-- Programs without a word missing are told apart by their listings, whatever the bases. -/
theorem eq_of_written_eq {other : List UInt8} {base' : Nat} (hle : program.length ≤ 0x10000)
    (hle' : other.length ≤ 0x10000) (h : written other base' = written program base) :
    other = program := by
  have hbytes := congrArg readBack h
  rwa [readBack_written_of_le hle, readBack_written_of_le hle'] at hbytes

/-! ### What is counted -/

theorem isUnknown_decode (w : Opcode) :
    (Instruction.decode w).isUnknown = decide (Instruction.decode w = .unknown w) := by
  cases h : Instruction.decode w with
  | unknown v =>
    rw [Instruction.eq_of_decode_eq_unknown h, decide_eq_true rfl]
    rfl
  | _ => rfl

/-- Words without a meaning are counted as far as they are listed. -/
theorem unknown_summary (program : List UInt8) :
    (summary program).unknown = (List.range (Disassembly.listed program)).countP fun k =>
      Instruction.decode (Disassembly.wordAt program k) =
        .unknown (Disassembly.wordAt program k) := by
  rw [summary, Disassembly.rows_eq_map_range, List.countP_map]
  exact congrArg (List.countP · _)
    (funext fun k => (Disassembly.Row.isUnknown_eq _).trans (isUnknown_decode _))

/-! ### All of it -/

/-- **The annotated listing leaves no byte unreported.** Of a program of at most `0x10000` bytes it
has a line for each word, with address, word and statement, and a line for the last byte if that
stands alone; its second column read back gives exactly the program, so that different programs have
different listings. The listing of a longer program is that of its first `0x10000` bytes, and every
run that reads such a program warns of it: a byte is missing only if that is said. The summary,
which every writing that succeeds yields, counts what is listed, and every word that is listed is
made of two bytes inside of the program. -/
theorem written_reports_every_byte (program : List UInt8) (base : Nat) :
    (program.length ≤ 0x10000 →
      written program base =
        String.join ((List.range (program.length / 2)).map (wordLine program base) ++
          if program.length % 2 = 1 then [lastLine program base] else []) ∧
      readBack (written program base) = program ∧
      ∀ other base', other.length ≤ 0x10000 → written other base' = written program base →
        other = program) ∧
    (0x10000 < program.length →
      written program base = written (program.take 0x10000) base ∧
      ∀ s u, Lister.Reads s u program → Lister.WarnsOfCut s u) ∧
    (readBack (written program base) ≠ program →
      ∀ s u, Lister.Reads s u program → Lister.WarnsOfCut s u) ∧
    (summary program).words = min (program.length / 2) 0x8000 ∧
    (summary program).unknown = (List.range (min (program.length / 2) 0x8000)).countP (fun k =>
      Instruction.decode (Disassembly.wordAt program k) =
        .unknown (Disassembly.wordAt program k)) ∧
    (summary program).trailing =
      (if program.length % 2 = 1 ∧ program.length < 0x10000 then program.getLast? else none) ∧
    (∀ {σ ε : Type} (report : Disassembly.Row → StateM σ Unit) (write : Writer (StateM σ) ε)
        (s s' : σ) (yielded : Summary),
      (writeAnnotated program base report write).run s = (.ok yielded, s') →
        yielded = summary program) ∧
    ∀ r ∈ Disassembly.rows program, ∃ high low,
      program[r.offset.toNat]? = some high ∧ program[r.offset.toNat + 1]? = some low ∧
        r.opcode = .ofBytes high low := by
  refine ⟨fun hle => ?_, fun hlong => ?_, fun hmissing s u hread => ?_,
    Disassembly.length_rows program, unknown_summary program, rfl,
    fun _ _ _ _ _ hrun => eq_summary_of_writeAnnotated hrun,
    fun r hr => Disassembly.bytes_of_mem_rows hr⟩
  · exact ⟨written_of_le hle base, readBack_written_of_le hle base,
      fun other base' hle' => eq_of_written_eq hle hle'⟩
  · exact ⟨(written_take program base).symm,
      fun s u hread => Lister.warnsOfCut_of_long hread hlong⟩
  · have hlong : 0x10000 < program.length :=
      Nat.lt_of_not_le fun hle => hmissing (readBack_written_of_le hle base)
    exact Lister.warnsOfCut_of_long hread hlong

/-- A short program that ends with half a word, and a run over a program that is too long. -/
theorem written_reports_every_byte_of_some :
    readBack (written [0x00, 0xE0, 0x12] 0x200) = [0x00, 0xE0, 0x12] ∧
      Lister.WarnsOfCut {}
        { origin := { nodes := [], home := [] }, input := .ok (List.replicate 0x10001 0) } := by
  obtain ⟨hshort, -⟩ := written_reports_every_byte [0x00, 0xE0, 0x12] 0x200
  obtain ⟨-, hlong, -⟩ := written_reports_every_byte (List.replicate 0x10001 0) 0
  have hlength : 0x10000 < (List.replicate 0x10001 (0 : UInt8)).length := by
    rw [List.length_replicate]
    decide
  have hreads : ∀ bytes, Lister.Reads {}
      { origin := { nodes := [], home := [] }, input := .ok bytes } bytes := fun _ => rfl
  exact ⟨(hshort (by decide)).2.1, (hlong hlength).2 _ _ (hreads _)⟩

end Chip8.Listing
