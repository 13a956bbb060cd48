import Chip8.Nibble

/-!
# The keypad

The keypad remembers which of the sixteen keys are held, one bit for each.

## Main definitions

* `Keypad.press`, `Keypad.release` — what a player does
* `Keypad.isHeld` — whether a key is held
* `Keypad.first?` — the lowest key held
* `Keypad.Operation`, `Keypad.apply` — a press or a release as a value

## Main results

* `Keypad.isHeld_press`, `Keypad.isHeld_release` — an operation changes its key and no other
* `Keypad.ext` — a keypad is determined by the keys held
* `Keypad.first?_eq_none_iff`, `Keypad.first?_eq_some_iff` — which key is the lowest, if any
-/

namespace Chip8

/-- Which keys are held. -/
structure Keypad where
  /-- Bit `k` is set while key `k` is held. -/
  mask : BitVec 16
  deriving DecidableEq

namespace Keypad

def released : Keypad := ⟨0⟩

def press (p : Keypad) (k : Key) : Keypad := ⟨p.mask ||| BitVec.twoPow 16 k.code.val⟩

def release (p : Keypad) (k : Key) : Keypad := ⟨p.mask &&& ~~~(BitVec.twoPow 16 k.code.val)⟩

def isHeld (p : Keypad) (k : Key) : Bool := p.mask.getLsbD k.code.val

/-- The keys held, from the lowest on. -/
def held (p : Keypad) : List Key := Key.all.filter p.isHeld

/-- The lowest key held. -/
def first? (p : Keypad) : Option Key := Key.all.find? p.isHeld

/-- What a player does with a key. -/
inductive Operation where
  | press (k : Key)
  | release (k : Key)
  deriving DecidableEq, Repr

def apply (p : Keypad) : Operation → Keypad
  | .press k => p.press k
  | .release k => p.release k

/-! ### Which keys are held -/

@[simp] theorem isHeld_released (k : Key) : released.isHeld k = false := by
  simp [isHeld, released]

theorem isHeld_press (p : Keypad) (k j : Key) :
    (p.press k).isHeld j = (decide (j = k) || p.isHeld j) := by
  obtain ⟨k⟩ := k
  obtain ⟨j⟩ := j
  have hj := j.isLt
  by_cases h : j = k
  · subst h; simp [isHeld, press]
  · have : j.val ≠ k.val := fun e => h (Fin.ext e)
    simp [isHeld, press, h, this]

theorem isHeld_release (p : Keypad) (k j : Key) :
    (p.release k).isHeld j = (!decide (j = k) && p.isHeld j) := by
  obtain ⟨k⟩ := k
  obtain ⟨j⟩ := j
  have hj := j.isLt
  by_cases h : j = k
  · subst h; simp [isHeld, release]
  · have : j.val ≠ k.val := fun e => h (Fin.ext e)
    simp [isHeld, release, h, this]

@[ext] theorem ext {p p' : Keypad} (h : ∀ k, p.isHeld k = p'.isHeld k) : p = p' := by
  cases p; cases p'
  congr 1
  exact BitVec.eq_of_getLsbD_eq fun i hi => h ⟨⟨i, hi⟩⟩

/-- Without a key that is held there is no lowest one, and only then. -/
theorem first?_eq_none_iff {p : Keypad} : p.first? = none ↔ ∀ k, p.isHeld k = false := by
  rw [first?, List.find?_eq_none]
  constructor
  · exact fun h k => Bool.eq_false_iff.mpr (h k k.mem_all)
  · exact fun h k _ => Bool.eq_false_iff.mp (h k)

/-- The lowest key is held, and no lower one is. -/
theorem first?_eq_some_iff {p : Keypad} {k : Key} :
    p.first? = some k ↔ p.isHeld k = true ∧ ∀ j, p.isHeld j = true → k.code ≤ j.code := by
  have hlowest : ∀ i, p.first? = some i →
      p.isHeld i = true ∧ ∀ j, p.isHeld j = true → i.code ≤ j.code := by
    intro i h
    obtain ⟨hheld, before, behind, hall, hbefore⟩ := List.find?_eq_some_iff_append.mp h
    refine ⟨hheld, fun j hj => ?_⟩
    have hordered := Key.pairwise_all
    rw [hall, List.pairwise_append, List.pairwise_cons] at hordered
    obtain ⟨-, ⟨hbehind, -⟩, -⟩ := hordered
    have hmem := j.mem_all
    rw [hall, List.mem_append, List.mem_cons] at hmem
    rcases hmem with hlow | rfl | hhigh
    · have hnot := hbefore j hlow
      rw [hj] at hnot
      cases hnot
    · exact Fin.le_refl _
    · exact Fin.le_of_lt (hbehind j hhigh)
  refine ⟨hlowest k, fun ⟨hheld, hleast⟩ => ?_⟩
  cases hfirst : p.first? with
  | none =>
    rw [first?_eq_none_iff.mp hfirst k] at hheld
    cases hheld
  | some i =>
    obtain ⟨hheld', hleast'⟩ := hlowest i hfirst
    have hcode : i.code = k.code := Fin.le_antisymm (hleast' k hheld) (hleast i hheld')
    cases i; cases k
    exact congrArg (fun code => some (Key.mk code)) hcode

end Keypad

end Chip8
