/-!
# The display

The display has 64 by 32 pixels. A sprite is a row of bytes, one for each row of eight pixels,
the most significant bit leftmost. It is drawn by flipping the pixels under its set bits; what
goes over an edge comes in at the opposite one.

## Main definitions

* `Display` — 32 rows of 64 bits, the leftmost pixel first
* `Display.pixel` — whether a pixel is lit
* `Display.spriteRow` — the pixels that one byte of a sprite flips
* `Display.flip` — flips pixels of one row
* `Display.draw` — draws a sprite and says what happened

## Main results

* `Display.ext`, `Display.exists_pixel_ne_iff` — a display is determined by its pixels
* `Display.isBlank_iff` — a blank display has no lit pixel
-/

namespace Chip8

/-- 32 rows of 64 pixels. -/
structure Display where
  /-- The rows from top to bottom; the most significant bit of a row is its leftmost pixel. -/
  rows : Vector (BitVec 64) 32
  deriving DecidableEq

namespace Display

def blank : Display := ⟨Vector.replicate 32 0⟩

def row (d : Display) (y : Fin 32) : BitVec 64 := d.rows[y.val]

/-- Whether a pixel is lit; outside the display none is. -/
def pixel (d : Display) (x y : Nat) : Bool :=
  if h : y < 32 then (d.row ⟨y, h⟩).getMsbD x else false

def isBlank (d : Display) : Bool := d == blank

/-- The row that lies `y` rows below the top edge, from the top again past the bottom edge. -/
def wrapRow (y : Nat) : Fin 32 := ⟨y % 32, Nat.mod_lt _ (by decide)⟩

/-- The pixels of a row that a byte of a sprite flips, if its left edge is at `x`. -/
def spriteRow (b : UInt8) (x : Nat) : BitVec 64 :=
  ((b.toBitVec.setWidth 64) <<< 56).rotateRight x

/-- Flips the pixels of a row that are set in a mask. -/
def flip (d : Display) (y : Fin 32) (mask : BitVec 64) : Display :=
  ⟨d.rows.set y.val (d.row y ^^^ mask) y.isLt⟩

/-- A display after a sprite was drawn, and what happened. -/
structure Drawn where
  display : Display
  /-- Whether a lit pixel was turned off. -/
  collision : Bool
  /-- Whether any pixel was flipped. -/
  changed : Bool
  deriving DecidableEq

/-- Draws a sprite with its top left corner at `(x, y)`. -/
def draw (d : Display) : List UInt8 → (x y : Nat) → Drawn
  | [], _, _ => ⟨d, false, false⟩
  | b :: rest, x, y =>
    let mask := spriteRow b x
    -- a sprite has fewer rows than the display, so no row below meets this one
    let below := draw (d.flip (wrapRow y) mask) rest x (y + 1)
    { display := below.display
      collision := d.row (wrapRow y) &&& mask != 0 || below.collision
      changed := b != 0 || below.changed }

/-! ### Pixels -/

theorem ext_row {d d' : Display} (h : ∀ y, d.row y = d'.row y) : d = d' := by
  cases d; cases d'
  congr 1
  exact Vector.ext fun i hi => h ⟨i, hi⟩

/-- Outside the display no pixel is lit. -/
theorem pixel_of_le {d : Display} {x y : Nat} (h : 64 ≤ x ∨ 32 ≤ y) : d.pixel x y = false := by
  unfold pixel
  split
  · next hy =>
    rcases h with h | h
    · simp [BitVec.getMsbD, Nat.not_lt.mpr h]
    · omega
  · rfl

/-- A display is determined by its pixels. -/
@[ext] theorem ext {d d' : Display} (h : ∀ x y, d.pixel x y = d'.pixel x y) : d = d' := by
  apply ext_row
  intro y
  apply BitVec.eq_of_getMsbD_eq
  intro x _
  simpa [pixel] using h x y.val

theorem row_flip (d : Display) (y q : Fin 32) (mask : BitVec 64) :
    (d.flip y mask).row q = if q = y then d.row q ^^^ mask else d.row q := by
  simp only [row, flip, Vector.getElem_set, Fin.ext_iff, eq_comm]
  split
  · next h => simp [h]
  · rfl

/-- Two displays differ exactly if they differ at a pixel inside. -/
theorem exists_pixel_ne_iff {d d' : Display} :
    (∃ x < 64, ∃ y < 32, d.pixel x y ≠ d'.pixel x y) ↔ d ≠ d' := by
  constructor
  · rintro ⟨x, -, y, -, hpixel⟩ rfl
    exact hpixel rfl
  · intro hne
    apply Classical.byContradiction
    intro hnone
    apply hne
    ext x y
    rcases Nat.lt_or_ge x 64 with hx | hx
    · rcases Nat.lt_or_ge y 32 with hy | hy
      · exact Classical.byContradiction fun hpixel => hnone ⟨x, hx, y, hy, hpixel⟩
      · rw [pixel_of_le (.inr hy), pixel_of_le (.inr hy)]
    · rw [pixel_of_le (.inl hx), pixel_of_le (.inl hx)]

@[simp] theorem pixel_blank (x y : Nat) : blank.pixel x y = false := by
  simp [pixel, row, blank]

/-- A blank display has no lit pixel. -/
theorem isBlank_iff {d : Display} : d.isBlank = true ↔ ∀ x y, d.pixel x y = false := by
  simp only [isBlank, beq_iff_eq]
  constructor
  · rintro rfl
    exact pixel_blank
  · intro h
    ext x y
    rw [h, pixel_blank]

end Display

end Chip8
