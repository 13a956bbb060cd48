/-!
# Log levels

Every message of the machine and of the lister has a level. A program shows the messages up to
the level it was asked for.

## Main definitions

* `Log.Level` — the five levels, gravest first
* `Log.Level.isShown` — whether a message passes a threshold
-/

namespace Chip8.Log

/-- How much a message matters. -/
inductive Level where
  | error
  | warn
  | info
  | debug
  | trace
  deriving DecidableEq, Repr

namespace Level

/-- The name of a level as log lines show it. -/
def name : Level → String
  | error => "ERROR"
  | warn => "WARN"
  | info => "INFO"
  | debug => "DEBUG"
  | trace => "TRACE"

/-- The place of a level in the order from gravest to least. -/
def rank : Level → Nat
  | error => 0
  | warn => 1
  | info => 2
  | debug => 3
  | trace => 4

/-- A message is shown if it is at least as grave as the threshold. -/
def isShown (threshold level : Level) : Bool := level.rank ≤ threshold.rank

@[simp] theorem isShown_error (threshold : Level) : threshold.isShown error = true := by
  cases threshold <;> rfl

end Level

end Chip8.Log
