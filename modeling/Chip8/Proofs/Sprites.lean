import Chip8.Display

/-!
# Sprites

A sprite is drawn row by row, and each of its bytes flips pixels of one row of the display. Taken
together, the bytes flip the pixels of a mask, which does not depend on what was displayed before.
As long as a sprite is not higher than the display, no two of its bytes meet in a row, so nothing
that one of them flips is flipped back by another.

## Main definitions

* `Display.spriteMask` — the pixels of a row that a sprite flips

## Main results

* `Display.row_draw` — drawing flips the pixels of the mask
* `Display.spriteMask_eq_zero_iff` — a sprite that fits flips nothing only if it is empty
* `Display.changed_draw_iff` — whether a sprite has a bit set says whether it changes the display
-/

namespace Chip8.Display

variable {d : Display} {b : UInt8} {s : List UInt8} {x y : Nat} {q : Fin 32}

/-! ### The pixels of a byte -/

/-- Bit `i` of a byte, from the left, flips the pixel `i` places right of its left edge, from the
left again past the right edge; there are no bits from eight on. -/
theorem getMsbD_spriteRow (b : UInt8) (x : Nat) {i : Nat} (hi : i < 64) :
    (spriteRow b x).getMsbD ((x + i) % 64) = b.toBitVec.getMsbD i := by
  have hcolumn : (x + i) % 64 < 64 := Nat.mod_lt _ (by decide)
  rw [spriteRow, BitVec.getMsbD_rotateRight]
  simp only [BitVec.getMsbD_shiftLeft, BitVec.getMsbD_setWidth, hcolumn, decide_true,
    Bool.true_and]
  split
  · have hplace : (64 + (x + i) % 64 - x % 64) % 64 = i := by omega
    rw [hplace]
    simp
  · have hplace : (x + i) % 64 - x % 64 = i := by omega
    rw [hplace]
    simp

@[simp] theorem spriteRow_zero (x : Nat) : spriteRow 0 x = 0#64 := by
  apply BitVec.eq_of_getMsbD_eq
  intro p _
  simp [spriteRow, BitVec.getMsbD_rotateRight]

/-- A byte flips no pixel only if it has no bit set. -/
theorem spriteRow_eq_zero_iff : spriteRow b x = 0#64 ↔ b = 0 := by
  constructor
  · intro hrow
    apply UInt8.toBitVec_inj.mp
    apply BitVec.eq_of_getMsbD_eq
    intro i hi
    rw [← getMsbD_spriteRow b x (Nat.lt_trans hi (by decide)), hrow]
    simp
  · rintro rfl
    exact spriteRow_zero x

/-! ### The pixels of a sprite -/

/-- The pixels of row `q` that a sprite flips if its top left corner is at `(x, y)`. -/
def spriteMask (q : Fin 32) : List UInt8 → (x y : Nat) → BitVec 64
  | [], _, _ => 0#64
  | b :: rest, x, y =>
    (if q = wrapRow y then spriteRow b x else 0#64) ^^^ spriteMask q rest x (y + 1)

/-- Drawing a sprite flips the pixels of its mask, whatever was displayed. -/
theorem row_draw (d : Display) (s : List UInt8) (x y : Nat) (q : Fin 32) :
    (d.draw s x y).display.row q = d.row q ^^^ spriteMask q s x y := by
  induction s generalizing d y with
  | nil => simp [draw, spriteMask]
  | cons b rest ih =>
    rw [draw, ih, row_flip, spriteMask]
    split
    · rw [BitVec.xor_assoc]
    · simp

/-- A sprite leaves the rows alone that none of its bytes comes to lie in. -/
theorem spriteMask_eq_zero (h : ∀ k < s.length, q ≠ wrapRow (y + k)) :
    spriteMask q s x y = 0#64 := by
  induction s generalizing y with
  | nil => rfl
  | cons b rest ih =>
    have hbelow : spriteMask q rest x (y + 1) = 0#64 := by
      refine ih fun k hk => ?_
      rw [Nat.add_right_comm]
      exact h (k + 1) (Nat.succ_lt_succ hk)
    have hfirst : q ≠ wrapRow y := h 0 (Nat.zero_lt_succ _)
    rw [spriteMask, if_neg hfirst, hbelow, BitVec.xor_self]

/-- The rows below a byte come back to its own row only after the whole height of the display. -/
theorem spriteMask_below_eq_zero {rest : List UInt8} (hrest : rest.length < 32) :
    spriteMask (wrapRow y) rest x (y + 1) = 0#64 := by
  refine spriteMask_eq_zero fun k hk hrow => ?_
  have hval := congrArg Fin.val hrow
  simp only [wrapRow] at hval
  omega

/-- A sprite no higher than the display flips nothing only if it has no bit set: no two of its
bytes come to lie in one row. -/
theorem spriteMask_eq_zero_iff (hs : s.length ≤ 32) :
    (∀ q, spriteMask q s x y = 0#64) ↔ ∀ b ∈ s, b = 0 := by
  induction s generalizing y with
  | nil => simp [spriteMask]
  | cons b rest ih =>
    have hrest : rest.length < 32 := hs
    have hbelow : spriteMask (wrapRow y) rest x (y + 1) = 0#64 := spriteMask_below_eq_zero hrest
    rw [List.forall_mem_cons, ← ih (y := y + 1) (Nat.le_of_lt hrest)]
    constructor
    · intro hmask
      have hb : b = 0 := by
        have hrow := hmask (wrapRow y)
        rw [spriteMask, if_pos rfl, hbelow, BitVec.xor_zero] at hrow
        exact spriteRow_eq_zero_iff.mp hrow
      refine ⟨hb, fun q => ?_⟩
      have hrow := hmask q
      rw [spriteMask, hb, spriteRow_zero, ite_self, BitVec.zero_xor] at hrow
      exact hrow
    · rintro ⟨rfl, hmask⟩ q
      rw [spriteMask, hmask q, spriteRow_zero, ite_self, BitVec.xor_self]

/-! ### What a drawing reports -/

theorem changed_draw (d : Display) (s : List UInt8) (x y : Nat) :
    (d.draw s x y).changed = s.any (· != 0) := by
  induction s generalizing d y with
  | nil => rfl
  | cons b rest ih => rw [draw, ih, List.any_cons]

theorem display_draw_eq_iff : (d.draw s x y).display = d ↔ ∀ q, spriteMask q s x y = 0#64 := by
  constructor
  · intro hsame q
    have hrow := row_draw d s x y q
    rw [hsame] at hrow
    have hcancel : d.row q ^^^ spriteMask q s x y = d.row q ^^^ 0#64 :=
      hrow.symm.trans BitVec.xor_zero.symm
    exact (BitVec.xor_right_inj _).mp hcancel
  · intro hmask
    apply ext_row
    intro q
    rw [row_draw, hmask, BitVec.xor_zero]

/-- A drawing that fits on the display reports a change exactly if it changes a pixel. -/
theorem changed_draw_iff (hs : s.length ≤ 32) :
    (d.draw s x y).changed = true ↔ (d.draw s x y).display ≠ d := by
  rw [changed_draw, ne_eq, display_draw_eq_iff, spriteMask_eq_zero_iff hs]
  simp

end Chip8.Display
