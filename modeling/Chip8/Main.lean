import Chip8.Lister.Run

/-!
# The lister as a program

The operating system as a host, and the program that runs the lister on it.
-/

namespace Chip8.Lister

/-- An input or output error as an error of the operating system. -/
def OsError.ofIO : IO.Error → OsError
  | .noFileOrDirectory _ code details => ⟨details, code.toNat⟩
  | .permissionDenied _ code details => ⟨details, code.toNat⟩
  | .inappropriateType _ code details => ⟨details, code.toNat⟩
  | .invalidArgument _ code details => ⟨details, code.toNat⟩
  | .resourceExhausted _ code details => ⟨details, code.toNat⟩
  | .resourceVanished code details => ⟨details, code.toNat⟩
  | .resourceBusy code details => ⟨details, code.toNat⟩
  | .hardwareFault code details => ⟨details, code.toNat⟩
  | .otherError code details => ⟨details, code.toNat⟩
  | e => ⟨toString e, 5⟩

/-- An action whose failure is a result. -/
def tryOs {α : Type} (action : IO α) : IO (Except OsError α) := do
  match ← action.toBaseIO with
  | .ok a => return .ok a
  | .error e => return .error (.ofIO e)

/-- The operating system as a host. -/
def system (output messages : IO.FS.Stream) : Host IO IO.FS.Stream where
  readInput := tryOs do
    return (← (← IO.getStdin).readBinToEnd).toList
  readFile path := tryOs do
    return (← (← IO.FS.Handle.mk path .read).readBinToEnd).toList
  create path := tryOs do
    return .ofHandle (← IO.FS.Handle.mk path .write)
  output := output
  write target text := tryOs do
    target.putStr text
    target.flush
  notify line := messages.putStr line

end Chip8.Lister

open Chip8.Lister in
/-- Reads the arguments and runs the lister. -/
def main (arguments : List String) : IO UInt32 := do
  let messages ← IO.getStderr
  match Arguments.read arguments with
  | .ok request => respond (system (← IO.getStdout) messages) request
  | .error e =>
    messages.putStr ("error: " ++ e.message ++ "\n")
    return 1
