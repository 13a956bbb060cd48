import Chip8.Layout
import Chip8.Listing
import Chip8.Lister.Host

/-!
# What the lister reports

A run reports what it read and what its listing contained, each word without a meaning, and why
it failed, if it did.

## Main definitions

* `Notice` — what a run reports
* `Stage` — where a run can fail
* `Failure` — where a run failed and why
* `noticesBefore`, `noticesAfter` — what is reported around a listing
-/

namespace Chip8.Lister

/-- Where a run failed. -/
inductive Stage where
  | readInput
  | readFile (path : String)
  | create (path : String)
  | write
  deriving DecidableEq, Repr

/-- What could not be done at a stage. -/
def Stage.complaint : Stage → String
  | readInput => "could not read program from standard input"
  | readFile path => "could not read program '" ++ path ++ "'"
  | create path => "could not create output file '" ++ path ++ "'"
  | write => "could not write listing"

/-- What a run reports. -/
inductive Notice where
  /-- The program was read. -/
  | read (length : Nat)
  /-- The program does not fit into memory. -/
  | oversized (length : Nat)
  /-- The program has more words than are listed. -/
  | cut
  /-- A word has no meaning. -/
  | unknownWord (r : Disassembly.Row)
  /-- All lines were written. -/
  | listed (words unknown : Nat)
  /-- The last byte stands alone. -/
  | oddByte (b : UInt8)
  /-- Something could not be done. -/
  | failed (stage : Stage)
  /-- Why it went wrong. -/
  | cause (e : OsError)
  deriving DecidableEq, Repr

namespace Notice

/-- How much a notice matters. -/
def level : Notice → Log.Level
  | read _ => .info
  | oversized _ => .warn
  | cut => .warn
  | unknownWord _ => .debug
  | listed .. => .info
  | oddByte _ => .warn
  | failed _ => .error
  | cause _ => .error

/-- A notice in words. -/
def message : Notice → String
  | read length => "read " ++ toString length ++ " bytes"
  | oversized length =>
    "program is " ++ toString length ++ " bytes, but only " ++
      toString Layout.programCapacity ++ " fit in memory"
  | cut => "only the first " ++ toString Disassembly.maxWords ++ " words are listed"
  | unknownWord r =>
    "unknown word " ++ r.opcode.text ++ " at offset $" ++ Hex.text 3 r.offset.toNat
  | listed words unknown =>
    "listed " ++ toString words ++ " words, " ++ toString unknown ++ " of them unknown"
  | oddByte b =>
    "program has an odd length; trailing byte $" ++ Hex.text 2 b.toNat ++ " is not an instruction"
  | failed stage => stage.complaint
  | cause e => "  caused by: " ++ e.message

/-- A notice as a line on standard error. -/
def line (n : Notice) : String := n.level.name ++ ": " ++ n.message ++ "\n"

end Notice

/-- Where a run failed and why. -/
structure Failure where
  /-- Where. -/
  stage : Stage
  /-- Why. -/
  error : OsError
  deriving DecidableEq, Repr

/-- The notices of a failure. -/
def Failure.notices (f : Failure) : List Notice := [.failed f.stage, .cause f.error]

/-! ### Around a listing -/

/-- What is reported of a program before its listing is written. -/
def noticesBefore (program : List UInt8) : List Notice :=
  [.read program.length] ++
    (if Layout.programCapacity < program.length then [.oversized program.length] else []) ++
    (if 2 * Disassembly.maxWords < program.length then [.cut] else [])

/-- What is reported of a listing when it is written. -/
def noticesAfter (summary : Listing.Summary) : List Notice :=
  .listed summary.words summary.unknown :: (summary.trailing.map Notice.oddByte).toList

end Chip8.Lister
