import Chip8.Disassembly
import Chip8.Sink

/-!
# Listings

A listing has one line for each word of a program. The plain listing shows the address and the
statement; its addresses have sixteen bits and wrap. The annotated listing also shows the word
itself, does not wrap its addresses, and gives a last byte without a partner a line of its own,
so that no byte of the program goes unreported.

## Main definitions

* `Listing.plainLine`, `Listing.plain` — the plain listing
* `Listing.dump` — writes the plain listing
* `Listing.annotatedLine`, `Listing.oddLine`, `Listing.annotated` — the annotated listing
* `Listing.trailing?` — the last byte, if it stands alone
* `Listing.Summary` — what an annotated listing contains
* `Listing.writeAnnotated` — writes the annotated listing, reports each row and sums up
* `Listing.summary` — the summary of a program
-/

namespace Chip8.Listing

open Disassembly (Row)

/-- What stands between two columns. -/
def gap : String := "  "

/-! ### The plain listing -/

/-- A line with the address and the statement of a row. -/
def plainLine (base : UInt16) (r : Row) : String :=
  Hex.text 3 (base + r.offset).toNat ++ gap ++ r.statement.columns ++ "\n"

/-- The lines of the plain listing. -/
def plain (program : List UInt8) (base : UInt16) : List String :=
  (Disassembly.rows program).map (plainLine base)

/-- Writes the plain listing of a program, with `base` added to every address. -/
def dump {m : Type → Type} [Monad m] {ε : Type} (program : List UInt8) (base : UInt16)
    (write : Writer m ε) : m (Except ε Unit) :=
  write.writeAll (plain program base)

/-! ### The annotated listing -/

/-- A line with the address, the word and the statement of a row. -/
def annotatedLine (base : Nat) (r : Row) : String :=
  Hex.text 3 (base + r.offset.toNat) ++ gap ++ Hex.text 4 r.opcode.word.toNat ++ gap ++
    r.statement.columns ++ "\n"

/-- The line of a byte without a partner. -/
def oddLine (address : Nat) (b : UInt8) : String :=
  Hex.text 3 address ++ gap ++ Hex.text 2 b.toNat ++ "    (odd trailing byte)\n"

/-- The last byte of a program, if it stands alone and no listed word is missing before it. -/
def trailing? (program : List UInt8) : Option UInt8 :=
  if program.length % 2 = 1 ∧ program.length < 2 * Disassembly.maxWords then program.getLast?
  else none

/-- The line of the last byte, if it stands alone. -/
def trailingLine? (program : List UInt8) (base : Nat) : Option String :=
  (trailing? program).map (oddLine (base + (program.length - 1)))

/-- The lines of the annotated listing. -/
def annotated (program : List UInt8) (base : Nat) : List String :=
  (Disassembly.rows program).map (annotatedLine base) ++ (trailingLine? program base).toList

/-- What an annotated listing contains. -/
structure Summary where
  /-- How many words are listed. -/
  words : Nat := 0
  /-- How many of them have no meaning. -/
  unknown : Nat := 0
  /-- The last byte, if it has a line of its own. -/
  trailing : Option UInt8 := none
  deriving DecidableEq, Repr

/-- A summary with one more row. -/
def Summary.count (s : Summary) (r : Row) : Summary :=
  { s with words := s.words + 1, unknown := if r.isUnknown then s.unknown + 1 else s.unknown }

section

variable {m : Type → Type} [Monad m] {ε : Type}

/-- Counts and reports every row in turn and writes its annotated line, until a line is refused;
after that the rows are still reported. -/
def writeRows (report : Row → m Unit) (write : Writer m ε) (base : Nat) :
    List Row → Summary → m (Except ε Summary)
  | [], s => pure (.ok s)
  | r :: rest, s => do
    report r
    match ← write (annotatedLine base r) with
    | .ok () => writeRows report write base rest (s.count r)
    | .error e =>
      rest.forM report
      pure (.error e)

/-- Writes the line of the last byte, if it stands alone. -/
def writeTrailing (program : List UInt8) (base : Nat) (write : Writer m ε) (s : Summary) :
    m (Except ε Summary) :=
  match trailing? program with
  | none => pure (.ok s)
  | some b => do
    match ← write (oddLine (base + (program.length - 1)) b) with
    | .ok () => pure (.ok { s with trailing := some b })
    | .error e => pure (.error e)

/-- Writes the annotated listing of a program, reports its rows, and yields what was listed. -/
def writeAnnotated (program : List UInt8) (base : Nat) (report : Row → m Unit)
    (write : Writer m ε) : m (Except ε Summary) := do
  match ← writeRows report write base (Disassembly.rows program) {} with
  | .ok s => writeTrailing program base write s
  | .error e => pure (.error e)

end

/-- What the annotated listing of a program contains. -/
def summary (program : List UInt8) : Summary :=
  let rows := Disassembly.rows program
  { words := rows.length, unknown := rows.countP Row.isUnknown, trailing := trailing? program }

/-! ### What is counted -/

theorem foldl_count (rows : List Row) (s : Summary) :
    rows.foldl Summary.count s =
      { s with
        words := s.words + rows.length
        unknown := s.unknown + rows.countP Row.isUnknown } := by
  induction rows generalizing s with
  | nil => rfl
  | cons r rows ih =>
    rw [List.foldl_cons, ih, Summary.count, List.length_cons, List.countP_cons]
    split
    · rw [Nat.add_right_comm, Nat.add_right_comm s.unknown]
      rfl
    · rw [Nat.add_right_comm]
      rfl

/-- The summary counts the rows and then takes in the last byte. -/
theorem summary_eq (program : List UInt8) :
    summary program =
      { (Disassembly.rows program).foldl Summary.count {} with trailing := trailing? program } := by
  rw [foldl_count, summary, Nat.zero_add, Nat.zero_add]

end Chip8.Listing
