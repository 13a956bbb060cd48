import Chip8.Lister.Host

/-!
# Paths

A path is a row of steps between slashes, taken from the root or from the directory that a run
works in. A step enters what has a name, goes out to the directory around, or stays.

## Main definitions

* `Step` — one step of a path
* `Path` — the steps of a path and where they start
* `Path.ofText` — the path that a text names, or why it names none
-/

namespace Chip8.Lister

/-- One step of a path. -/
inductive Step where
  | stay
  /-- Out to the directory around; the root has none and is kept. -/
  | out
  | into (name : String)
  deriving DecidableEq, Repr

/-- A path. -/
structure Path where
  /-- Whether the path starts at the root, and not where a run works. -/
  fromRoot : Bool
  /-- The steps in order. -/
  steps : List Step
  /-- Whether the path asks for a directory, by a slash behind its last step. -/
  wantsDirectory : Bool
  deriving DecidableEq, Repr

/-- The most bytes that a path can have. -/
def Path.longest : Nat := 4095

/-- The most bytes that a name can have. -/
def Step.longestName : Nat := 255

/-- The step that stands between two slashes; slashes side by side hold none. -/
def Step.ofText? : List Char → Option Step
  | [] => none
  | ['.'] => some .stay
  | ['.', '.'] => some .out
  | name => some (.into (String.ofList name))

namespace Path

/-- The path of characters that are known to name one. -/
def ofChars (text : List Char) : Path where
  fromRoot := text.head? = some '/'
  steps := (text.splitOn '/').filterMap Step.ofText?
  wantsDirectory := text.getLast? = some '/'

/-- The path that a text names: no text names nothing. -/
def ofText (text : String) : Except OsError Path :=
  if text = "" then .error .notFound
  else if longest < text.utf8ByteSize then .error .nameTooLong
  else .ok (ofChars text.toList)

/-- The steps with the last of them left out, which a directory is to be reached by. -/
def around (p : Path) : List Step := p.steps.dropLast ++ [.stay]

end Path

end Chip8.Lister
