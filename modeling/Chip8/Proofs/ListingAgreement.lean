import Mathlib.Data.List.TakeWhile
import Chip8.Proofs.AnnotatedListing
import Chip8.Proofs.PlainListing

/-!
# The two listings agree

The plain and the annotated listing of a program show the same rows, one line each. The annotated
one has a column more, the raw word, and its addresses go on where those of the plain one start
again from zero after sixteen bits. Apart from that a line is the same in both, and both show the
instruction as it reads in running text, except that its operands stand in a column of their own.

Texts are compared here, and not what they were made from: a column is what stands before a blank,
wherever the line came from.

## Main definitions

* `Text.firstColumn`, `Text.behindFirst` — a line cut behind its first column
* `Text.squeezed` — a text with one blank behind its first word
* `Text.ofLines` — the text of lines
* `Listing.withoutRaw`, `Listing.wrapped` — a line without its raw word, with a short address

## Main results

* `Instruction.squeezed_columns` — the operands' column squeezed away, an instruction reads as text
* `Listing.wrapped_withoutRaw` — a plain line is an annotated one without its raw word
* `Listing.listings_agree` — all of it
-/

namespace Chip8

/-! ### Cutting lines -/

namespace Text

variable {word rest : List Char} {c : Char}

/-- What stands before the first blank of a line. -/
def firstColumn (line : List Char) : List Char := line.takeWhile (· ≠ ' ')

/-- What stands behind the first column of a line and the two blanks that end it. -/
def behindFirst (line : List Char) : List Char := (line.dropWhile (· ≠ ' ')).drop 2

/-- A text with the blanks behind its first word reduced to one. -/
def squeezed (cs : List Char) : List Char :=
  match cs.dropWhile (· ≠ ' ') with
  | [] => cs
  | blanks => firstColumn cs ++ ' ' :: blanks.dropWhile (· = ' ')

/-- The text of lines, each ended by a line feed. -/
def ofLines (lines : List (List Char)) : String :=
  String.join (lines.map fun line => String.ofList line ++ "\n")

theorem ofLines_map_toList (bodies : List String) :
    ofLines (bodies.map String.toList) = String.join (bodies.map (· ++ "\n")) := by
  simp only [ofLines, List.map_map, Function.comp_def, String.ofList_toList]

theorem all_ne_blank (h : ' ' ∉ word) : ∀ c ∈ word, decide (c ≠ ' ') = true :=
  fun _ hc => decide_eq_true fun hblank => h (hblank ▸ hc)

theorem firstColumn_append (h : ' ' ∉ word) (rest : List Char) :
    firstColumn (word ++ ' ' :: rest) = word := by
  rw [firstColumn, List.takeWhile_append_of_pos (all_ne_blank h),
    List.takeWhile_cons_of_neg (by decide), List.append_nil]

theorem dropWhile_ne_blank_append (h : ' ' ∉ word) (rest : List Char) :
    (word ++ ' ' :: rest).dropWhile (· ≠ ' ') = ' ' :: rest := by
  rw [List.dropWhile_append_of_pos (all_ne_blank h), List.dropWhile_cons_of_neg (by decide)]

theorem behindFirst_append (h : ' ' ∉ word) (rest : List Char) :
    behindFirst (word ++ ' ' :: ' ' :: rest) = rest := by
  rw [behindFirst, dropWhile_ne_blank_append h]
  rfl

/-- A lone word has no blanks behind it. -/
theorem squeezed_of_not_mem (h : ' ' ∉ word) : squeezed word = word := by
  have hnone : word.dropWhile (· ≠ ' ') = [] := List.dropWhile_eq_nil_iff.mpr (all_ne_blank h)
  rw [squeezed, hnone]

/-- Of any number of blanks one is left. -/
theorem squeezed_append (h : ' ' ∉ word) (hc : c ≠ ' ') (k : Nat) (rest : List Char) :
    squeezed (word ++ (List.replicate (k + 1) ' ' ++ c :: rest)) = word ++ ' ' :: c :: rest := by
  have hblanks : ∀ b ∈ List.replicate k ' ', decide (b = ' ') = true :=
    fun _ hb => decide_eq_true (List.eq_of_mem_replicate hb)
  have hdrop : (' ' :: (List.replicate k ' ' ++ c :: rest)).dropWhile (· = ' ') = c :: rest := by
    rw [List.dropWhile_cons_of_pos (by decide), List.dropWhile_append_of_pos hblanks,
      List.dropWhile_cons_of_neg (by rwa [decide_eq_true_eq])]
  rw [List.replicate_succ, List.cons_append, squeezed, dropWhile_ne_blank_append h]
  simp only [firstColumn_append h, hdrop]

end Text

/-! ### Statements in listings and in running text -/

namespace Statement

variable {s : Statement} {o : Operand} {os : List Operand}

/-- The first operand comes first. -/
theorem exists_operandText_eq (h : s.operands = o :: os) :
    ∃ rest, s.operandText.toList = o.text.toList ++ rest := by
  rw [operandText, h, String.toList_intercalate, List.map_cons, List.map_cons]
  cases os with
  | nil =>
    rw [List.map_nil, List.map_nil, List.intercalate_singleton]
    exact ⟨[], (List.append_nil _).symm⟩
  | cons o' os =>
    rw [List.map_cons, List.map_cons, List.intercalate_cons_cons, List.append_assoc]
    exact ⟨_, rfl⟩

/-- What is written of operands does not start with a blank. -/
theorem exists_operandText_eq_cons (h : s.operands = o :: os) :
    ∃ c rest, s.operandText.toList = c :: rest ∧ c ≠ ' ' := by
  obtain ⟨rest, htext⟩ := exists_operandText_eq h
  obtain ⟨c, cs, hfirst⟩ := List.exists_cons_of_ne_nil o.text_ne_nil
  have hblank : ' ' ∉ o.text.toList := o.solid_text.not_mem rfl
  rw [hfirst] at htext hblank
  exact ⟨c, cs ++ rest, htext, fun hc => hblank (hc ▸ List.mem_cons_self)⟩

end Statement

/-- With the blanks behind its mnemonic reduced to one, an instruction in a listing reads as in
running text. -/
theorem Instruction.squeezed_columns (i : Instruction) :
    Text.squeezed i.statement.columns.toList = i.text.toList := by
  obtain ⟨hsolid, -, hlength⟩ := Statement.mnemonic_fits i
  have hblank : ' ' ∉ i.statement.mnemonic.toList := hsolid.not_mem rfl
  rw [text, Statement.text, Statement.columns]
  cases hoperands : i.statement.operands with
  | nil => exact Text.squeezed_of_not_mem hblank
  | cons o os =>
    obtain ⟨k, hk⟩ := Nat.exists_eq_add_of_lt hlength
    have hpad : Statement.mnemonicWidth - i.statement.mnemonic.toList.length = k + 1 := by omega
    obtain ⟨c, rest, hrest, hc⟩ := Statement.exists_operandText_eq_cons hoperands
    have hspace : " ".toList = [' '] := rfl
    simp only [String.toList_append, String.toList_ofList, List.rightpad, hpad, hrest, hspace,
      List.append_assoc]
    exact Text.squeezed_append hblank hc k rest

namespace Listing

open Disassembly (Row)

variable {program : List UInt8} {base : UInt16} {r : Row}

/-! ### Lines -/

/-- A line with three columns without the second. -/
def withoutRaw (line : List Char) : List Char :=
  Text.firstColumn line ++ ' ' :: ' ' :: Text.behindFirst (Text.behindFirst line)

/-- A line with the address in its first column reduced to sixteen bits. -/
def wrapped (line : List Char) : List Char :=
  Hex.padded 3 (Hex.value (Text.firstColumn line) % 0x10000) ++
    ' ' :: ' ' :: Text.behindFirst line

theorem blank_not_mem_padded (width n : Nat) : ' ' ∉ Hex.padded width n := by
  have hsolid := Text.solid_hex width n
  rw [Hex.text, String.toList_ofList] at hsolid
  exact hsolid.not_mem rfl

theorem toList_plainBody (base : UInt16) (r : Row) :
    (plainBody base r).toList =
      Hex.padded 3 (base + r.offset).toNat ++ ' ' :: ' ' :: r.statement.columns.toList := by
  have hgap : gap.toList = [' ', ' '] := rfl
  simp only [plainBody, Hex.text, String.toList_append, String.toList_ofList, hgap,
    List.append_assoc, List.cons_append, List.nil_append]

theorem toList_annotatedBody (base : Nat) (r : Row) :
    (annotatedBody base r).toList =
      Hex.padded 3 (base + r.offset.toNat) ++ ' ' :: ' ' ::
        (Hex.padded 4 r.opcode.word.toNat ++ ' ' :: ' ' :: r.statement.columns.toList) := by
  have hgap : gap.toList = [' ', ' '] := rfl
  simp only [annotatedBody, Hex.text, String.toList_append, String.toList_ofList, hgap,
    List.append_assoc, List.cons_append, List.nil_append]

theorem withoutRaw_annotatedBody (base : Nat) (r : Row) :
    withoutRaw (annotatedBody base r).toList =
      Hex.padded 3 (base + r.offset.toNat) ++ ' ' :: ' ' :: r.statement.columns.toList := by
  rw [withoutRaw, toList_annotatedBody, Text.firstColumn_append (blank_not_mem_padded _ _),
    Text.behindFirst_append (blank_not_mem_padded _ _),
    Text.behindFirst_append (blank_not_mem_padded _ _)]

/-- The column that is left out is the raw word. -/
theorem raw_annotatedBody (base : Nat) (r : Row) :
    Text.firstColumn (Text.behindFirst (annotatedBody base r).toList) =
      Hex.padded 4 r.opcode.word.toNat := by
  rw [toList_annotatedBody, Text.behindFirst_append (blank_not_mem_padded _ _),
    Text.firstColumn_append (blank_not_mem_padded _ _)]

/-- A plain line is an annotated one without its raw word, and with its address reduced. -/
theorem wrapped_withoutRaw (base : UInt16) (r : Row) :
    wrapped (withoutRaw (annotatedBody base.toNat r).toList) = (plainBody base r).toList := by
  rw [wrapped, withoutRaw_annotatedBody, Text.firstColumn_append (blank_not_mem_padded _ _),
    Text.behindFirst_append (blank_not_mem_padded _ _), Hex.value_padded, toList_plainBody,
    UInt16.toNat_add]

/-- A listing that starts at zero does not get this far, but one at the start of programs does. -/
example : wrapped (withoutRaw "10000  00E0  CLS".toList) = "000  CLS".toList := by decide +kernel

/-- An address of sixteen bits needs no reducing. -/
theorem withoutRaw_eq_of_lt (h : base.toNat + r.offset.toNat < 0x10000) :
    withoutRaw (annotatedBody base.toNat r).toList = (plainBody base r).toList := by
  rw [withoutRaw_annotatedBody, toList_plainBody, UInt16.toNat_add, Nat.mod_eq_of_lt h]

/-- Behind its address, a plain line shows the instruction as it reads in running text. -/
theorem squeezed_behindFirst_plainBody (base : UInt16) (r : Row) :
    Text.squeezed (Text.behindFirst (plainBody base r).toList) = r.instruction.text.toList := by
  rw [toList_plainBody, Text.behindFirst_append (blank_not_mem_padded _ _)]
  exact r.instruction.squeezed_columns

/-! ### Texts -/

theorem dumped_eq_ofLines (program : List UInt8) (base : UInt16) :
    dumped program base =
      Text.ofLines ((Disassembly.rows program).map fun r => (plainBody base r).toList) := by
  rw [dumped_eq_join, plain_eq, ← Text.ofLines_map_toList, List.map_map]
  rfl

/-- The first lines of the annotated listing are those of the rows. -/
theorem take_lines_written (program : List UInt8) (base : Nat) :
    (Text.lines (written program base)).take (Disassembly.listed program) =
      (Disassembly.rows program).map fun r => (annotatedBody base r).toList := by
  rw [lines_written, annotatedBodies, List.map_append, List.map_map]
  exact List.take_left' (by rw [List.length_map, Disassembly.length_rows])

/-- Behind the lines of the rows stands at most the line of a last byte that stands alone. -/
theorem drop_lines_written (program : List UInt8) (base : Nat) :
    (Text.lines (written program base)).drop (Disassembly.listed program) =
      (trailing? program).toList.map fun b =>
        (oddBody (base + (program.length - 1)) b).toList := by
  rw [lines_written, annotatedBodies, List.map_append, List.map_map,
    List.drop_left' (by rw [List.length_map, Disassembly.length_rows]), Option.toList_map,
    List.map_map]
  rfl

theorem length_trailing? (program : List UInt8) :
    (trailing? program).toList.length =
      if program.length % 2 = 1 ∧ program.length < 0x10000 then 1 else 0 := by
  unfold trailing?
  split
  · next h =>
    have hlast : program.length % 2 = 1 ∧ program.length < 0x10000 := h
    have hne : program ≠ [] := by
      rintro rfl
      exact absurd h.1 (by decide)
    rw [if_pos hlast, List.getLast?_eq_some_getLast hne]
    rfl
  · next h =>
    have hnone : ¬ (program.length % 2 = 1 ∧ program.length < 0x10000) := h
    rw [if_neg hnone]
    rfl

theorem length_lines_written (program : List UInt8) (base : Nat) :
    (Text.lines (written program base)).length =
      Disassembly.listed program +
        if program.length % 2 = 1 ∧ program.length < 0x10000 then 1 else 0 := by
  have htake := congrArg List.length (take_lines_written program base)
  have hdrop := congrArg List.length (drop_lines_written program base)
  rw [List.length_map, Disassembly.length_rows] at htake
  rw [List.length_map, length_trailing?] at hdrop
  rw [← List.take_append_drop (Disassembly.listed program) (Text.lines (written program base)),
    List.length_append, htake, hdrop]

/-- What both listings say of the word with the number `k`. -/
theorem lines_of_word {k : Nat} (h : k < Disassembly.listed program) (base : UInt16) :
    ∃ line, (Text.lines (written program base.toNat))[k]? = some line ∧
      Text.firstColumn (Text.behindFirst line) =
        Hex.padded 4 (Disassembly.wordAt program k).word.toNat ∧
      (Text.lines (dumped program base))[k]? = some (wrapped (withoutRaw line)) ∧
      Text.squeezed (Text.behindFirst (wrapped (withoutRaw line))) =
        (Instruction.decode (Disassembly.wordAt program k)).text.toList := by
  refine ⟨(annotatedBody base.toNat (Disassembly.row k (Disassembly.wordAt program k))).toList,
    ?_, ?_, ?_, ?_⟩
  · rw [← List.getElem?_take_of_lt h, take_lines_written, List.getElem?_map,
      Disassembly.getElem?_rows h, Option.map_some]
  · exact raw_annotatedBody _ _
  · rw [lines_dumped, List.getElem?_map, Disassembly.getElem?_rows h, Option.map_some,
      wrapped_withoutRaw]
  · rw [wrapped_withoutRaw]
    exact squeezed_behindFirst_plainBody _ _

/-- All plain lines are annotated ones without their raw words, with their addresses reduced. -/
theorem dumped_eq_wrapped (program : List UInt8) (base : UInt16) :
    dumped program base =
      Text.ofLines (((Text.lines (written program base.toNat)).take
        (Disassembly.listed program)).map fun line => wrapped (withoutRaw line)) := by
  rw [dumped_eq_ofLines, take_lines_written, List.map_map]
  exact congrArg _ (List.map_congr_left fun r _ => (wrapped_withoutRaw base r).symm)

/-- As long as no address wraps, the addresses agree too. -/
theorem dumped_eq_withoutRaw (hle : base.toNat + program.length ≤ 0x10000) :
    dumped program base =
      Text.ofLines (((Text.lines (written program base.toNat)).take
        (Disassembly.listed program)).map withoutRaw) := by
  rw [dumped_eq_ofLines, take_lines_written, List.map_map]
  refine congrArg _ (List.map_congr_left fun r hr => ?_)
  have hinside := Disassembly.offset_lt_of_mem_rows hr
  exact (withoutRaw_eq_of_lt (by omega)).symm

/-! ### All of it -/

/-- **The two listings agree.** Every writer that never refuses takes both listings of a program
whole, whatever is reported meanwhile. They have a line for each word that is listed, the annotated
one possibly a line more, for a last byte that stands alone. Line `k` of the annotated listing
without its raw word, and with its address reduced to sixteen bits, is line `k` of the plain one;
what stands behind its address is the instruction as it reads in running text, once the blanks
behind the mnemonic are reduced to one. So the plain text can be made from the annotated text, and
without touching the addresses if the program ends before they wrap. -/
theorem listings_agree (program : List UInt8) (base : UInt16) :
    let words := min (program.length / 2) 0x8000
    let plainLines := Text.lines (dumped program base)
    let annotatedLines := Text.lines (written program base.toNat)
    (∀ {σ ε : Type} {free : σ → Prop} {content : σ → String} {write : Writer (StateM σ) ε}
        {report : Row → StateM σ Unit} (s : σ),
      write.Unfailing free content → Silent free content report → free s →
        Writer.Takes free content s (dumped program base) () ((dump program base write).run s) ∧
        Writer.Takes free content s (written program base.toNat) (summary program)
          ((writeAnnotated program base.toNat report write).run s)) ∧
    plainLines.length = words ∧
    annotatedLines.length =
      words + (if program.length % 2 = 1 ∧ program.length < 0x10000 then 1 else 0) ∧
    annotatedLines.drop words =
      ((trailing? program).toList.map fun b =>
        (oddBody (base.toNat + (program.length - 1)) b).toList) ∧
    (∀ k < words, ∃ line, annotatedLines[k]? = some line ∧
      Text.firstColumn (Text.behindFirst line) =
        Hex.padded 4 (Disassembly.wordAt program k).word.toNat ∧
      plainLines[k]? = some (wrapped (withoutRaw line)) ∧
      Text.squeezed (Text.behindFirst (wrapped (withoutRaw line))) =
        (Instruction.decode (Disassembly.wordAt program k)).text.toList) ∧
    dumped program base =
      Text.ofLines ((annotatedLines.take words).map fun line => wrapped (withoutRaw line)) ∧
    (base.toNat + program.length ≤ 0x10000 →
      dumped program base = Text.ofLines ((annotatedLines.take words).map withoutRaw)) := by
  have hplain : (Text.lines (dumped program base)).length = Disassembly.listed program := by
    rw [lines_dumped, List.length_map, Disassembly.length_rows]
  exact ⟨fun s h hsilent hs => ⟨takes_dump h hs program base,
      takes_writeAnnotated h hsilent hs program base.toNat⟩,
    hplain, length_lines_written program base.toNat, drop_lines_written program base.toNat,
    fun k hk => lines_of_word hk base, dumped_eq_wrapped program base, dumped_eq_withoutRaw⟩

/-- A program that ends with half a word, where it will run, written to a sink without a limit. -/
theorem listings_agree_at_program_start :
    let program : List UInt8 := [0x00, 0xE0, 0xA2, 0x02, 0xFF]
    let free := fun s : Sink => s.room = none
    Writer.Takes free Sink.taken {} "200  CLS\n202  LD   I, $202\n" ()
      ((dump program 0x200 Sink.write).run {}) ∧
    Writer.Takes free Sink.taken {}
      "200  00E0  CLS\n202  A202  LD   I, $202\n204  FF    (odd trailing byte)\n"
      { words := 2, unknown := 0, trailing := some 0xFF }
      ((writeAnnotated program 0x200 (fun _ => pure ()) Sink.write).run {}) ∧
    (∃ line, (Text.lines (written program 0x200))[1]? = some line ∧
      (Text.lines (dumped program 0x200))[1]? = some (wrapped (withoutRaw line))) ∧
    dumped program 0x200 =
      Text.ofLines (((Text.lines (written program 0x200)).take 2).map withoutRaw) := by
  intro program free
  have hle : (0x200 : UInt16).toNat + program.length ≤ 0x10000 := by decide
  have hbase : (0x200 : UInt16).toNat = 0x200 := by decide
  have hwords : min (program.length / 2) 0x8000 = 2 := by decide
  have hdumped : dumped program 0x200 = "200  CLS\n202  LD   I, $202\n" := by decide +kernel
  have hwritten : written program 0x200 =
      "200  00E0  CLS\n202  A202  LD   I, $202\n204  FF    (odd trailing byte)\n" := by
    decide +kernel
  have hsummary : summary program = { words := 2, unknown := 0, trailing := some 0xFF } := by
    decide +kernel
  have hsilent : Silent free Sink.taken fun _ => pure () :=
    fun _ _ hroom => ⟨hroom, rfl⟩
  obtain ⟨htakes, -, -, -, hlines, -, hunwrapped⟩ := listings_agree program 0x200
  rw [hbase] at htakes hlines
  rw [hbase, hwords] at hunwrapped
  obtain ⟨hplain, hannotated⟩ := htakes {} Sink.unfailing_write hsilent rfl
  rw [hdumped] at hplain
  rw [hwritten, hsummary] at hannotated
  obtain ⟨line, hline, -, hsecond, -⟩ := hlines 1 (by decide)
  exact ⟨hplain, hannotated, ⟨line, hline, hsecond⟩, hunwrapped hle⟩

end Listing

end Chip8
