/-!
# Upper-case hexadecimal text

Addresses, bytes and words are written in base sixteen with upper-case digits, filled up with
zeros on the left to a least width and never cut.

## Main definitions

* `Hex.digit` — the character of a digit
* `Hex.digits` — a number without leading zeros
* `Hex.text` — a number with at least so many digits
* `Hex.value` — the number that a row of digits stands for

## Main results

* `Hex.value_padded` — reading a written number gives it back, whatever the width
-/

namespace Chip8.Hex

/-- The sixteen digits in order. -/
def alphabet : List Char :=
  ['0', '1', '2', '3', '4', '5', '6', '7', '8', '9', 'A', 'B', 'C', 'D', 'E', 'F']

/-- The character of a digit below sixteen. -/
def digit (d : Nat) : Char := alphabet.getD d '?'

/-- The digits of a number, most significant first; zero is one digit. -/
def digits (n : Nat) : List Char :=
  if n < 16 then [digit n] else digits (n / 16) ++ [digit (n % 16)]

/-- The digits of a number with zeros in front of them up to the given width. -/
def padded (width n : Nat) : List Char := (digits n).leftpad width '0'

/-- A number as text of at least `width` digits. -/
def text (width n : Nat) : String := String.ofList (padded width n)

/-- An address as log messages show it: `0x` and at least three digits. -/
def marked (n : Nat) : String := "0x" ++ text 3 n

/-- The number that a row of digits stands for. -/
def value (cs : List Char) : Nat := cs.foldl (fun v c => 16 * v + alphabet.idxOf c) 0

/-! ### Reading back -/

theorem idxOf_digit {d : Nat} (h : d < 16) : alphabet.idxOf (digit d) = d := by
  have key : ∀ d : Fin 16, alphabet.idxOf (digit d) = d := by decide
  exact key ⟨d, h⟩

theorem value_append_digit (cs : List Char) {d : Nat} (h : d < 16) :
    value (cs ++ [digit d]) = 16 * value cs + d := by
  simp [value, idxOf_digit h]

@[simp] theorem value_zero_cons (cs : List Char) : value ('0' :: cs) = value cs := rfl

theorem value_replicate_zero_append (k : Nat) (cs : List Char) :
    value (List.replicate k '0' ++ cs) = value cs := by
  induction k with
  | zero => rfl
  | succ k ih => rw [List.replicate_succ, List.cons_append, value_zero_cons, ih]

theorem value_digits (n : Nat) : value (digits n) = n := by
  induction n using Nat.strongRecOn with
  | ind n ih =>
    unfold digits
    split
    · next h => simpa [value] using idxOf_digit h
    · next h =>
      rw [value_append_digit _ (Nat.mod_lt n (by decide)), ih (n / 16) (by omega)]
      omega

/-- Reading a written number gives it back, whatever the width. -/
theorem value_padded (width n : Nat) : value (padded width n) = n := by
  rw [padded, List.leftpad, value_replicate_zero_append, value_digits]

end Chip8.Hex
