import Chip8.Log
import Chip8.Sink

/-!
# What the lister runs on

The lister reads a program, writes a listing and shows messages. A host supplies these actions;
each may fail with an error of the operating system.

## Main definitions

* `OsError` — an error of the operating system
* `Host` — the actions
-/

namespace Chip8.Lister

/-- An error of the operating system. -/
structure OsError where
  description : String
  code : Nat
  deriving DecidableEq, Repr

namespace OsError

/-- An error as messages show it. -/
def message (e : OsError) : String := e.description ++ " (os error " ++ toString e.code ++ ")"

/-- There is nothing under a path. -/
def notFound : OsError := ⟨"No such file or directory", 2⟩

/-- A path goes through something that is no directory. -/
def notDirectory : OsError := ⟨"Not a directory", 20⟩

/-- A directory stands where a file is wanted. -/
def isDirectory : OsError := ⟨"Is a directory", 21⟩

/-- A path or a name in it has too many bytes. -/
def nameTooLong : OsError := ⟨"File name too long", 36⟩

/-- Nothing more can be written. -/
def noSpace : OsError := ⟨"No space left on device", 28⟩

end OsError

/-- The actions that the lister needs; `Handle` stands for what can be written to. -/
structure Host (m : Type → Type) (Handle : Type) where
  /-- Reads standard input to its end. -/
  readInput : m (Except OsError (List UInt8))
  /-- Reads a file. -/
  readFile : String → m (Except OsError (List UInt8))
  /-- Creates a file or empties it. -/
  create : String → m (Except OsError Handle)
  /-- Standard output. -/
  output : Handle
  /-- Writes a text. -/
  write : Handle → Writer m OsError
  /-- Shows a message on standard error. -/
  notify : String → m Unit

end Chip8.Lister
