import Chip8.Lister.FileTree

/-!
# The surroundings of a run

A file tree, standard input, standard output and standard error are all that a run of the lister
sees and changes. As a value they make a host of their own.

What goes through a stream is kept apart from the tree, also where the stream is redirected to a
file of the tree; that file then takes it in addition, from where the stream stands in it.

Creating a file opens it anew, even if a stream is redirected to it. The file is emptied, and what
is written starts at its front. So the file loses what it held before: what went there through the
stream, or the program, if that was read from there. Messages that go to the same file afterwards
are written over the text or behind it.

## Main definitions

* `Surroundings` — all that a run sees and changes
* `Surroundings.tree` — the file tree as it is now
* `Surroundings.host` — the surroundings as a host
* `Surroundings.contents` — what a file holds
-/

namespace Chip8.Lister

/-- All that a run of the lister sees and changes. -/
structure Surroundings where
  /-- The file tree at the start. -/
  origin : FileTree
  /-- What reading standard input to its end yields. -/
  input : Except OsError (List UInt8)
  /-- Why what does not fit is refused. -/
  refusal : OsError := .noSpace
  /-- Standard output. -/
  output : Sink := {}
  /-- The place where a file was created, and what was written to it. -/
  created : Option (Place × Sink) := none
  /-- What was shown on standard error, which takes everything. -/
  shown : String := ""
  deriving Repr

namespace Surroundings

/-- The file tree as it is now, without what went through the streams. What was created is a file,
except where a device or a stream stands: that stays what it is. -/
def tree (s : Surroundings) : FileTree :=
  match s.created with
  | none => s.origin
  | some (place, sink) =>
    match s.origin.node? place with
    | some (.device _) => s.origin
    | some (.stream _) => s.origin
    | _ => s.origin.put place (.file sink.taken.toUTF8.toList)

/-- The bytes that a path leads to. What is only written to holds none. -/
def readFile (s : Surroundings) (text : String) : Except OsError (List UInt8) :=
  match s.tree.find text with
  | .ok (.file bytes) => .ok bytes
  | .ok (.stream .input) => s.input
  | .ok (.stream _) => .ok []
  | .ok (.device _) => .ok []
  | .ok (.barred (some bytes) _) => .ok bytes
  | .ok (.barred none e) => .error e
  | .ok .directory => .error .isDirectory
  | .error e => .error e

/-- What can be written to. -/
inductive Target where
  | output
  | messages
  | created
  deriving DecidableEq, Repr

/-- How many characters are taken by what is created where a node stood, or nothing. -/
def roomFor (s : Surroundings) : Option Node → Option Nat
  | some (.device room) => room
  | some (.stream _) => none
  | _ => s.origin.room

/-- The surroundings with a file created at a place, or emptied. -/
def createAt (s : Surroundings) (place : Place) (old : Option Node) : Surroundings :=
  { s with created := some (place, { room := s.roomFor old }) }

/-- Creates a file or empties it. The name of a pipe or a terminal that is written to yields that
stream, and a device stays what it is. -/
def create (text : String) : StateM Surroundings (Except OsError Target) := do
  let s ← get
  match s.tree.findNew text with
  | .error e => return .error e
  | .ok (_, some (.stream .output)) => return .ok .output
  | .ok (_, some (.stream .messages)) => return .ok .messages
  | .ok (place, old) =>
    set (s.createAt place old)
    return .ok .created

/-- Offers a text to a target. -/
def offer (s : Surroundings) (text : String) : Target → Surroundings
  | .output => { s with output := s.output.offer text }
  | .messages => { s with shown := s.shown ++ text }
  | .created => { s with created := s.created.map fun (place, sink) => (place, sink.offer text) }

/-- Whether a target has room for the whole of a text. -/
def fits (s : Surroundings) (text : String) : Target → Bool
  | .output => s.output.fits text
  | .messages => true
  | .created => s.created.all fun (_, sink) => sink.fits text

/-- Writes a text; what does not fit is refused. -/
def write (target : Target) : Writer (StateM Surroundings) OsError := fun text => do
  let s ← get
  set (s.offer text target)
  return if s.fits text target then .ok () else .error s.refusal

/-- The surroundings as a host. -/
def host : Host (StateM Surroundings) Target where
  readInput := return (← get).input
  readFile text := return (← get).readFile text
  create := create
  output := .output
  write := write
  notify line := modify fun s => { s with shown := s.shown ++ line }

/-- What a file holds, if there is one. -/
def contents (s : Surroundings) (text : String) : Option (List UInt8) :=
  match s.tree.find text with
  | .ok (.file bytes) => some bytes
  | _ => none

end Surroundings

end Chip8.Lister
