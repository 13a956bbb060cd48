/-!
# Writers that can fail

A listing is written line by line to something that may refuse to take more. After the first
refusal nothing more is written.

## Main definitions

* `Writer` — writes a text and says whether that succeeded
* `Writer.writeAll` — writes texts one after the other until one is refused
* `Sink` — what takes a fixed number of characters, or any number, and then refuses
* `Sink.write` — the writer of a sink
-/

namespace Chip8

/-- An action that writes a text and reports the error if it could not. -/
abbrev Writer (m : Type → Type) (ε : Type) := String → m (Except ε Unit)

namespace Writer

/-- Writes texts one after the other and stops at the first that is refused. -/
def writeAll {m : Type → Type} [Monad m] {ε : Type} (write : Writer m ε) :
    List String → m (Except ε Unit)
  | [] => pure (.ok ())
  | text :: rest => do
    match ← write text with
    | .ok () => writeAll write rest
    | .error e => pure (.error e)

end Writer

/-- What has been written to a place with limited room. Listings are plain ASCII, so a character
is a byte. -/
structure Sink where
  /-- How many more characters are taken; without a number, any number. -/
  room : Option Nat := none
  /-- What was taken so far. -/
  taken : String := ""
  /-- How many writes were refused. -/
  failures : Nat := 0
  deriving DecidableEq, Repr

namespace Sink

/-- Why a sink refuses a text. -/
inductive Refusal where
  /-- There is no room left. -/
  | full
  deriving DecidableEq, Repr

/-- A sink after it was offered a text: it takes what there is room for. -/
def offer (s : Sink) (text : String) : Sink :=
  match s.room with
  | none => { s with taken := s.taken ++ text }
  | some room =>
    if text.length ≤ room then
      { s with room := some (room - text.length), taken := s.taken ++ text }
    else
      { room := some 0
        taken := s.taken ++ String.ofList (text.toList.take room)
        failures := s.failures + 1 }

/-- Whether a sink has room for the whole of a text. -/
def fits (s : Sink) (text : String) : Bool :=
  match s.room with
  | none => true
  | some room => text.length ≤ room

/-- Writes a text to the sink; what does not fit is refused. -/
def write : Writer (StateM Sink) Refusal := fun text => do
  let s ← get
  set (s.offer text)
  return if s.fits text then .ok () else .error .full

/-! ### Offers -/

theorem failures_offer (s : Sink) (text : String) :
    (s.offer text).failures = if s.fits text then s.failures else s.failures + 1 := by
  unfold offer fits
  split
  · rfl
  · split <;> simp_all

/-- A text that fits is taken whole. -/
theorem taken_offer_of_fits {s : Sink} {text : String} (h : s.fits text) :
    (s.offer text).taken = s.taken ++ text := by
  unfold fits at h
  unfold offer
  split
  · rfl
  · simp_all

end Sink

end Chip8
