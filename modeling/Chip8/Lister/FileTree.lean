import Chip8.Lister.Path

/-!
# File trees

A file tree says what stands at which place. A path is walked step by step; every step is taken
from a directory, so a walk goes wrong where nothing stands or where something else does.

The streams of a run have names in the tree. A stream that is a pipe or a terminal is found under
its name. A stream that is redirected is not: its name leads on to the place that it was redirected
to, and whoever opens that name opens anew what stands there.

## Main definitions

* `Place` — the names that lead from the root to something
* `Node` — what can stand at a place
* `FileTree` — what stands where, and the directory that a run works in
* `FileTree.walk` — the place that steps lead to
* `FileTree.follow` — the place behind the name of a redirected stream
* `FileTree.find` — what a path leads to, for reading
* `FileTree.findNew` — where a path leads to, for creating a file there

## Main results

* `FileTree.node?_put` — what stands where after something was put at a place
-/

namespace Chip8.Lister

/-- The names that lead from the root to something. -/
abbrev Place := List String

/-- One of the streams that a run has from its start. -/
inductive Stream where
  | input
  | output
  | messages
  deriving DecidableEq, Repr

/-- What can stand at a place. -/
inductive Node where
  | file (bytes : List UInt8)
  | directory
  /-- Something that takes what is written up to its room and keeps nothing. -/
  | device (room : Option Nat)
  /-- The name of one of the streams of the run. -/
  | stream (s : Stream)
  /-- Something that cannot be written to, and why; without bytes it cannot be read either. -/
  | barred (bytes : Option (List UInt8)) (e : OsError)
  deriving DecidableEq, Repr

/-- What stands where. -/
structure FileTree where
  /-- All places where something stands, apart from the root; the first entry of a place counts. -/
  nodes : List (Place × Node)
  /-- The directory that a run works in. -/
  home : Place
  /-- The places that streams are redirected to; the other streams are pipes or terminals. -/
  redirected : List (Stream × Place) := []
  /-- How many characters an emptied file takes; without a number, any number. -/
  room : Option Nat := none
  deriving DecidableEq, Repr

namespace FileTree

/-- What stands at a place. The root is a directory. -/
def node? (t : FileTree) (p : Place) : Option Node :=
  if p = [] then some .directory else t.nodes.lookup p

/-- The tree with something put at a place. -/
def put (t : FileTree) (p : Place) (n : Node) : FileTree := { t with nodes := (p, n) :: t.nodes }

/-- Takes a step from a place, which has to be a directory. There may be nothing yet where the
step leads. -/
def step (t : FileTree) (p : Place) (s : Step) : Except OsError Place :=
  match t.node? p with
  | none => .error .notFound
  | some .directory =>
    match s with
    | .stay => .ok p
    | .out => .ok p.dropLast
    | .into name =>
      if Step.longestName < name.utf8ByteSize then .error .nameTooLong else .ok (p ++ [name])
  | some _ => .error .notDirectory

/-- The place that steps lead to. -/
def walk (t : FileTree) (p : Place) : List Step → Except OsError Place
  | [] => .ok p
  | s :: rest => do t.walk (← t.step p s) rest

/-- The place that is meant by a place: the name of a redirected stream leads on. -/
def follow (t : FileTree) (p : Place) : Place :=
  match t.node? p with
  | some (.stream s) => (t.redirected.lookup s).getD p
  | _ => p

/-- The place where a path starts. -/
def start (t : FileTree) (path : Path) : Place := if path.fromRoot then [] else t.home

/-- What a path leads to. -/
def find (t : FileTree) (text : String) : Except OsError Node := do
  let path ← Path.ofText text
  match t.node? (t.follow (← t.walk (t.start path) path.steps)) with
  | none => .error .notFound
  | some .directory => .ok .directory
  | some n => if path.wantsDirectory then .error .notDirectory else .ok n

/-- The place where a path leads to, if a file can be created there, and what stands there. -/
def findNew (t : FileTree) (text : String) : Except OsError (Place × Option Node) := do
  let path ← Path.ofText text
  -- a path that asks for a directory is refused before its last step is taken
  let steps := if path.wantsDirectory then path.around else path.steps
  let place := t.follow (← t.walk (t.start path) steps)
  match t.node? place with
  | some .directory => .error .isDirectory
  | some (.barred _ e) => .error e
  | n => .ok (place, n)

/-! ### Putting something at a place -/

theorem node?_put (t : FileTree) {p : Place} (h : p ≠ []) (n : Node) (q : Place) :
    (t.put p n).node? q = if q = p then some n else t.node? q := by
  by_cases hq : q = p
  · subst hq
    simp [node?, put, h]
  · have : (q == p) = false := by simpa using hq
    simp [node?, put, List.lookup_cons, this, hq]

end FileTree

end Chip8.Lister
