import Chip8.Proofs.Drawing

/-!
# Sprites on top of each other

A sprite flips the pixels of its mask, and the mask does not depend on what is displayed. Sprites
drawn on top of each other therefore give the same picture in any order, and a sprite drawn a second
time at its place takes itself away again. This holds however high the sprites are, also when rows
of one sprite meet because it comes around the display.

A sprite that fits on the display also reports exactly what it does. Whatever it turned off when it
was drawn is turned on when it is drawn again, and the other way round; so between them the two
drawings meet each covered pixel while it is lit.

## Main definitions

* `Display.HasBit` — a sprite has a set bit

## Main results

* `Display.row_draw_draw` — two drawings flip the pixels of both masks
* `Display.collision_redraw_iff` — what the second drawing of a sprite reports
* `Display.drawings_superpose` — order does not matter, twice is not at all, and what is reported
-/

namespace Chip8.Display

variable {d : Display} {s : List UInt8} {x y p q : Nat}

/-! ### The picture -/

/-- Two drawings flip the pixels of both masks. -/
theorem row_draw_draw (d : Display) (s t : List UInt8) (x y x' y' : Nat) (q : Fin 32) :
    ((d.draw s x y).display.draw t x' y').display.row q =
      d.row q ^^^ (spriteMask q s x y ^^^ spriteMask q t x' y') := by
  rw [row_draw, row_draw, BitVec.xor_assoc]

theorem display_draw_comm (d : Display) (s t : List UInt8) (x y x' y' : Nat) :
    ((d.draw s x y).display.draw t x' y').display =
      ((d.draw t x' y').display.draw s x y).display := by
  apply ext_row
  intro q
  rw [row_draw_draw, row_draw_draw, BitVec.xor_comm (spriteMask q s x y)]

theorem display_draw_twice (d : Display) (s : List UInt8) (x y : Nat) :
    ((d.draw s x y).display.draw s x y).display = d := by
  apply ext_row
  intro q
  rw [row_draw_draw, BitVec.xor_self, BitVec.xor_zero]

/-! ### What two drawings of a sprite report -/

/-- A sprite has a set bit. -/
def HasBit (s : List UInt8) : Prop := ∃ b ∈ s, ∃ i < 8, b.toNat.testBit (7 - i) = true

/-- A sprite covers a pixel as soon as it has a set bit, wherever it is drawn. -/
theorem exists_covers_iff : (∃ p q, Covers s x y p q) ↔ HasBit s := by
  constructor
  · rintro ⟨p, q, j, b, hb, i, hi, -, -, hset⟩
    exact ⟨b, List.mem_of_getElem? hb, i, hi, hset⟩
  · rintro ⟨b, hmem, i, hi, hset⟩
    obtain ⟨j, hb⟩ := List.mem_iff_getElem?.mp hmem
    exact ⟨(x + i) % 64, (y + j) % 32, j, b, hb, i, hi, rfl, rfl, hset⟩

theorem changed_draw_iff_hasBit (hs : s.length ≤ 32) :
    (d.draw s x y).changed = true ↔ HasBit s :=
  (changed_draw_iff_covers hs).trans exists_covers_iff

/-- A covered pixel is lit after a drawing exactly if it was dark before. -/
theorem pixel_draw_of_covers (hs : s.length ≤ 32) (h : Covers s x y p q) :
    (d.draw s x y).display.pixel p q = !d.pixel p q :=
  Bool.eq_not.mpr ((pixel_draw_ne_iff hs).mpr h)

/-- A drawing that follows another one of the same sprite at the same place reports a collision
exactly if the sprite covers a pixel that was dark at first. -/
theorem collision_redraw_iff (hs : s.length ≤ 32) :
    ((d.draw s x y).display.draw s x y).collision = true ↔
      ∃ p q, Covers s x y p q ∧ d.pixel p q = false := by
  rw [collision_draw_iff hs]
  -- the second drawing covers what the first one did, and finds it flipped
  refine exists_congr fun p => exists_congr fun q => and_congr_right fun hcovers => ?_
  rw [pixel_draw_of_covers hs hcovers, Bool.not_eq_true']

/-- One of the two drawings meets a covered pixel while it is lit. -/
theorem collision_draw_or_redraw_iff (hs : s.length ≤ 32) :
    (d.draw s x y).collision = true ∨ ((d.draw s x y).display.draw s x y).collision = true ↔
      HasBit s := by
  rw [collision_draw_iff hs, collision_redraw_iff hs, ← exists_covers_iff (x := x) (y := y)]
  constructor
  · rintro (⟨p, q, hcovers, -⟩ | ⟨p, q, hcovers, -⟩)
    · exact ⟨p, q, hcovers⟩
    · exact ⟨p, q, hcovers⟩
  · rintro ⟨p, q, hcovers⟩
    cases hlit : d.pixel p q with
    | true => exact Or.inl ⟨p, q, hcovers, hlit⟩
    | false => exact Or.inr ⟨p, q, hcovers, hlit⟩

/-- **Drawings superpose.** Two sprites of any height give the same picture in either order, and a
sprite drawn twice at one place gives back the picture that was there. If it has no more rows than
the display, both of its drawings report a change if and only if it has a set bit; the first reports
a collision if and only if a pixel under a set bit was lit at first, and the second if and only if
one was dark; so a sprite with a set bit collides at least once, and one without never does. -/
theorem drawings_superpose (d : Display) (s t : List UInt8) (x y x' y' : Nat) :
    ((d.draw s x y).display.draw t x' y').display =
      ((d.draw t x' y').display.draw s x y).display ∧
    ((d.draw s x y).display.draw s x y).display = d ∧
    (s.length ≤ 32 →
      let first := d.draw s x y
      let second := first.display.draw s x y
      (first.changed = true ↔ HasBit s) ∧
      (second.changed = true ↔ HasBit s) ∧
      (first.collision = true ↔ ∃ p q, Covers s x y p q ∧ d.pixel p q = true) ∧
      (second.collision = true ↔ ∃ p q, Covers s x y p q ∧ d.pixel p q = false) ∧
      (first.collision = true ∨ second.collision = true ↔ HasBit s)) := by
  refine ⟨display_draw_comm d s t x y x' y', display_draw_twice d s x y, fun hs => ?_⟩
  intro first second
  exact ⟨changed_draw_iff_hasBit hs, changed_draw_iff_hasBit hs, collision_draw_iff hs,
    collision_redraw_iff hs, collision_draw_or_redraw_iff hs⟩

/-- A sprite in the last corner comes around both edges and meets a lit pixel in the first one: it
collides there, and again when it is drawn a second time, at the pixels that were dark. -/
theorem drawings_superpose_around_corner :
    let s : List UInt8 := [0xC0, 0xC0]
    let d := (blank.draw [0x80] 0 0).display
    let first := d.draw s 63 31
    s.length ≤ 32 ∧ first.collision = true ∧
      (first.display.draw s 63 31).collision = true ∧ (first.display.draw s 63 31).display = d := by
  intro s d first
  have hs : s.length ≤ 32 := by decide
  obtain ⟨-, hback, hreports⟩ := drawings_superpose d s s 63 31 63 31
  obtain ⟨-, -, hfirst, hsecond, -⟩ := hreports hs
  refine ⟨hs, hfirst.mpr ⟨0, 0, ?_, by decide⟩, hsecond.mpr ⟨63, 31, ?_, by decide⟩, hback⟩
  · exact ⟨1, 0xC0, rfl, 1, by decide, rfl, rfl, by decide⟩
  · exact ⟨0, 0xC0, rfl, 0, by decide, rfl, rfl, by decide⟩

end Chip8.Display
