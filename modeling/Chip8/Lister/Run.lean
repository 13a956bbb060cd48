import Chip8.Lister.Arguments
import Chip8.Lister.Host
import Chip8.Lister.Notice
import Chip8.Lister.Usage
import Chip8.Listing

/-!
# Running the lister

A run reads the whole program before it touches the output, creates the output before it writes
a line, and reports what the listing contained when all lines are written.

## Main definitions

* `list` — makes one listing
* `listStatus` — makes one listing and yields the exit status
* `respond` — answers a request and yields the exit status
-/

namespace Chip8.Lister

section

variable {m : Type → Type} [Monad m] {Handle : Type}

/-- Shows a notice if it is grave enough. -/
def report (host : Host m Handle) (s : Settings) (n : Notice) : m Unit :=
  if s.threshold.isShown n.level then host.notify n.line else pure ()

/-- Shows notices one after the other. -/
def reportAll (host : Host m Handle) (s : Settings) (ns : List Notice) : m Unit :=
  ns.forM (report host s)

/-- The result of an action, or the failure of its stage. -/
def attempt {α : Type} (stage : Stage) (action : m (Except OsError α)) : ExceptT Failure m α := do
  match ← action with
  | .ok a => return a
  | .error e => throw ⟨stage, e⟩

/-- Reads the program. -/
def readProgram (host : Host m Handle) (s : Settings) : ExceptT Failure m (List UInt8) :=
  match s.file with
  | none => attempt .readInput host.readInput
  | some path => attempt (.readFile path) (host.readFile path)

/-- Opens what the listing is written to. -/
def openOutput (host : Host m Handle) (s : Settings) : ExceptT Failure m Handle :=
  match s.output with
  | none => return host.output
  | some path => attempt (.create path) (host.create path)

/-- The address of the first line. -/
def Settings.base (s : Settings) : Nat := if s.absolute then Layout.programStart else 0

/-- Reports a row whose word has no meaning. -/
def reportRow (host : Host m Handle) (s : Settings) (r : Disassembly.Row) : m Unit :=
  if r.isUnknown then report host s (.unknownWord r) else pure ()

/-- Makes one listing. -/
def list (host : Host m Handle) (s : Settings) : ExceptT Failure m Unit := do
  let program ← readProgram host s
  ExceptT.lift (reportAll host s (noticesBefore program))
  let target ← openOutput host s
  let summary ← attempt .write
    (Listing.writeAnnotated program s.base (reportRow host s) (host.write target))
  ExceptT.lift (reportAll host s (noticesAfter summary))

/-- Makes one listing and yields the exit status. -/
def listStatus (host : Host m Handle) (s : Settings) : m UInt32 := do
  match ← (list host s).run with
  | .ok () => return 0
  | .error f =>
    reportAll host s f.notices
    return 1

/-- Answers a request and yields the exit status. -/
def respond (host : Host m Handle) : Request → m UInt32
  | .help => do
    let _ ← host.write host.output helpText
    return 0
  | .version => do
    let _ ← host.write host.output versionText
    return 0
  | .list s => listStatus host s

end

end Chip8.Lister
