import Chip8.Proofs.Effects

/-!
# Drawing, pixel by pixel

A sprite covers the pixels that its set bits come to lie on: bit `i` of byte `j`, from the left, is
`i` columns right of the sprite's corner and `j` rows below it, and what goes over an edge comes in
at the opposite one. No two bits of a sprite come to lie on the same pixel. Drawing therefore flips
exactly the covered pixels, and what a drawing reports on its way is what a comparison of the
display before and afterwards would say.

## Main definitions

* `Address.behind` — a place some bytes behind the one that a pointer points to
* `Display.Covers` — a bit of a sprite comes to lie on a pixel
* `Machine.Flips` — the pixels that an instruction flips that draws, in terms of the machine

## Main results

* `Display.pixel_draw_ne_iff` — drawing flips exactly the covered pixels
* `Display.collision_draw_iff`, `Display.changed_draw_iff_covers` — what a drawing reports
* `Machine.draw_flips_covered` — what an instruction that draws does to the machine
-/

namespace Chip8

/-! ### The bytes of a sprite -/

/-- The place `k` bytes behind the one that a pointer points to. -/
def Address.behind (pointer : UInt16) (k : Nat) : Address :=
  ⟨(pointer.toNat + k) % 0x1000, Nat.mod_lt _ (by decide)⟩

theorem Address.behind_succ (pointer : UInt16) (k : Nat) :
    behind pointer (k + 1) = behind (pointer + 1) k := by
  apply Fin.ext
  -- the pointer wraps at 2 ^ 16, which the size of memory divides
  simp only [behind, UInt16.toNat_add, UInt16.toNat_one]
  omega

theorem Address.behind_eq_wrap (pointer : UInt16) (k : Nat) :
    behind pointer k = wrap (pointer + UInt16.ofNat k) := by
  apply Fin.ext
  simp only [behind, val_wrap, UInt16.toNat_add, UInt16.toNat_ofNat']
  omega

theorem Memory.getElem?_readRun (m : Memory) {pointer : UInt16} {n k : Nat} (h : k < n) :
    (m.readRun pointer n)[k]? = some (m.read (.behind pointer k)) := by
  induction n generalizing pointer k with
  | zero => exact absurd h (Nat.not_lt_zero k)
  | succ n ih =>
    cases k with
    | zero => rfl
    | succ k =>
      rw [readRun, List.getElem?_cons_succ, ih (Nat.lt_of_succ_lt_succ h), Address.behind_succ]

namespace Display

variable {d : Display} {b : UInt8} {s : List UInt8} {x y p q j : Nat}

/-! ### Covered pixels -/

/-- A set bit of a sprite with its corner at `(x, y)` comes to lie on the pixel `(p, q)`. -/
def Covers (s : List UInt8) (x y p q : Nat) : Prop :=
  ∃ j b, s[j]? = some b ∧ ∃ i < 8, p = (x + i) % 64 ∧ q = (y + j) % 32 ∧
    b.toNat.testBit (7 - i) = true

theorem getMsbD_toBitVec (b : UInt8) {i : Nat} (hi : i < 8) :
    b.toBitVec.getMsbD i = b.toNat.testBit (7 - i) := by
  rw [BitVec.getMsbD_eq_getLsbD, decide_eq_true hi, Bool.true_and, BitVec.getLsbD,
    UInt8.toNat_toBitVec]

/-- A byte flips the pixels of a row that its set bits come to lie on. -/
theorem getMsbD_spriteRow_iff (hp : p < 64) :
    (spriteRow b x).getMsbD p = true ↔
      ∃ i < 8, p = (x + i) % 64 ∧ b.toNat.testBit (7 - i) = true := by
  constructor
  · intro hbit
    obtain ⟨i, hi, hcolumn⟩ : ∃ i < 64, p = (x + i) % 64 :=
      ⟨(p + 64 - x % 64) % 64, Nat.mod_lt _ (by decide), by omega⟩
    rw [hcolumn, getMsbD_spriteRow b x hi] at hbit
    have hi' : i < 8 := BitVec.lt_of_getMsbD hbit
    rw [getMsbD_toBitVec b hi'] at hbit
    exact ⟨i, hi', hcolumn, hbit⟩
  · rintro ⟨i, hi, rfl, hbit⟩
    rw [getMsbD_spriteRow b x (Nat.lt_trans hi (by decide)), getMsbD_toBitVec b hi]
    exact hbit

/-- The row of a byte comes back only after the whole height of the display. -/
theorem wrapRow_add_ne {y k : Nat} (h : k + 1 < 32) : wrapRow (y + (k + 1)) ≠ wrapRow y := by
  intro hrow
  have hval := congrArg Fin.val hrow
  simp only [wrapRow] at hval
  omega

/-- In the row of one of its bytes, a sprite no higher than the display flips what the byte
flips. -/
theorem spriteMask_wrapRow (hs : s.length ≤ 32) (hb : s[j]? = some b) :
    spriteMask (wrapRow (y + j)) s x y = spriteRow b x := by
  induction s generalizing y j with
  | nil => cases hb
  | cons c rest ih =>
    have hrest : rest.length < 32 := hs
    cases j with
    | zero =>
      obtain rfl : c = b := Option.some.inj hb
      rw [Nat.add_zero, spriteMask, if_pos rfl, spriteMask_below_eq_zero hrest, BitVec.xor_zero]
    | succ j =>
      have hb' : rest[j]? = some b := hb
      have hj : j + 1 < 32 := by
        have := (List.getElem?_eq_some_iff.mp hb').1
        omega
      have hrow : y + (j + 1) = y + 1 + j := by omega
      rw [spriteMask, if_neg (wrapRow_add_ne hj), hrow, ih (Nat.le_of_lt hrest) hb',
        BitVec.zero_xor]

/-- A sprite no higher than the display flips the pixels that it covers. -/
theorem getMsbD_spriteMask_iff (hs : s.length ≤ 32) (q : Fin 32) (hp : p < 64) :
    (spriteMask q s x y).getMsbD p = true ↔ Covers s x y p q.val := by
  constructor
  · intro hbit
    by_cases hbyte : ∃ k < s.length, q = wrapRow (y + k)
    · obtain ⟨j, hj, rfl⟩ := hbyte
      have hb : s[j]? = some s[j] := List.getElem?_eq_getElem hj
      rw [spriteMask_wrapRow hs hb] at hbit
      obtain ⟨i, hi, hcolumn, hset⟩ := (getMsbD_spriteRow_iff hp).mp hbit
      exact ⟨j, s[j], hb, i, hi, hcolumn, rfl, hset⟩
    · rw [spriteMask_eq_zero fun k hk hrow => hbyte ⟨k, hk, hrow⟩, BitVec.getMsbD_zero] at hbit
      cases hbit
  · rintro ⟨j, b, hb, i, hi, hcolumn, hrow, hset⟩
    obtain rfl : q = wrapRow (y + j) := Fin.ext hrow
    rw [spriteMask_wrapRow hs hb]
    exact (getMsbD_spriteRow_iff hp).mpr ⟨i, hi, hcolumn, hset⟩

theorem Covers.lt (h : Covers s x y p q) : p < 64 ∧ q < 32 := by
  obtain ⟨j, b, -, i, -, rfl, rfl, -⟩ := h
  exact ⟨Nat.mod_lt _ (by decide), Nat.mod_lt _ (by decide)⟩

/-- Drawing a sprite no higher than the display flips exactly the pixels that it covers. -/
theorem pixel_draw_ne_iff (hs : s.length ≤ 32) :
    (d.draw s x y).display.pixel p q ≠ d.pixel p q ↔ Covers s x y p q := by
  by_cases hinside : p < 64 ∧ q < 32
  · obtain ⟨hp, hq⟩ := hinside
    rw [← getMsbD_spriteMask_iff hs ⟨q, hq⟩ hp, pixel, pixel, dif_pos hq, dif_pos hq, row_draw,
      BitVec.getMsbD_xor]
    cases (spriteMask ⟨q, hq⟩ s x y).getMsbD p with
    | true => simp
    | false => simp
  · have houtside : 64 ≤ p ∨ 32 ≤ q := by omega
    rw [pixel_of_le houtside, pixel_of_le houtside]
    exact iff_of_false (fun h => h rfl) fun h => hinside h.lt

/-! ### What a drawing reports -/

/-- A drawing reports a change exactly if the sprite covers a pixel. -/
theorem changed_draw_iff_covers (hs : s.length ≤ 32) :
    (d.draw s x y).changed = true ↔ ∃ p q, Covers s x y p q := by
  rw [changed_draw_iff hs, ← exists_pixel_ne_iff]
  constructor
  · rintro ⟨p, -, q, -, hne⟩
    exact ⟨p, q, (pixel_draw_ne_iff hs).mp hne⟩
  · rintro ⟨p, q, hcovers⟩
    obtain ⟨hp, hq⟩ := hcovers.lt
    exact ⟨p, hp, q, hq, (pixel_draw_ne_iff hs).mpr hcovers⟩

theorem row_flip_of_ne {q r : Fin 32} (h : q ≠ r) (mask : BitVec 64) :
    (d.flip r mask).row q = d.row q := by
  rw [row_flip, if_neg h]

theorem exists_getMsbD_of_ne_zero {row : BitVec 64} (h : row ≠ 0#64) :
    ∃ p < 64, row.getMsbD p = true := by
  refine Classical.byContradiction fun hnone => h ?_
  apply BitVec.eq_of_getMsbD_eq
  intro p hp
  rw [BitVec.getMsbD_zero, Bool.eq_false_iff]
  exact fun hbit => hnone ⟨p, hp, hbit⟩

/-- A drawing reports a collision exactly if in some row it meets a lit pixel. The rows are drawn
one after the other, but none of them sees what another has flipped. -/
theorem collision_draw (hs : s.length ≤ 32) :
    (d.draw s x y).collision = true ↔ ∃ q, d.row q &&& spriteMask q s x y ≠ 0#64 := by
  induction s generalizing d y with
  | nil => simp [draw, spriteMask]
  | cons b rest ih =>
    have hrest : rest.length < 32 := hs
    have hbelow : spriteMask (wrapRow y) rest x (y + 1) = 0#64 := spriteMask_below_eq_zero hrest
    rw [draw, Bool.or_eq_true, bne_iff_ne, ih (Nat.le_of_lt hrest)]
    constructor
    · rintro (hfirst | ⟨q, hq⟩)
      · refine ⟨wrapRow y, ?_⟩
        rwa [spriteMask, if_pos rfl, hbelow, BitVec.xor_zero]
      · have hother : q ≠ wrapRow y := by
          rintro rfl
          exact hq (by rw [hbelow, BitVec.and_zero])
        refine ⟨q, ?_⟩
        rwa [spriteMask, if_neg hother, BitVec.zero_xor,
          ← row_flip_of_ne hother (spriteRow b x)]
    · rintro ⟨q, hq⟩
      by_cases hfirst : q = wrapRow y
      · left
        rwa [hfirst, spriteMask, if_pos rfl, hbelow, BitVec.xor_zero] at hq
      · refine Or.inr ⟨q, ?_⟩
        rwa [spriteMask, if_neg hfirst, BitVec.zero_xor,
          ← row_flip_of_ne hfirst (spriteRow b x)] at hq

/-- A drawing reports a collision exactly if the sprite covers a lit pixel. -/
theorem collision_draw_iff (hs : s.length ≤ 32) :
    (d.draw s x y).collision = true ↔ ∃ p q, Covers s x y p q ∧ d.pixel p q = true := by
  rw [collision_draw hs]
  constructor
  · rintro ⟨q, hq⟩
    obtain ⟨p, hp, hbit⟩ := exists_getMsbD_of_ne_zero hq
    rw [BitVec.getMsbD_and, Bool.and_eq_true] at hbit
    obtain ⟨hlit, hmask⟩ := hbit
    refine ⟨p, q.val, (getMsbD_spriteMask_iff hs q hp).mp hmask, ?_⟩
    rwa [pixel, dif_pos q.isLt]
  · rintro ⟨p, q, hcovers, hlit⟩
    obtain ⟨hp, hq⟩ := hcovers.lt
    have hmask := (getMsbD_spriteMask_iff hs ⟨q, hq⟩ hp).mpr hcovers
    rw [pixel, dif_pos hq] at hlit
    refine ⟨⟨q, hq⟩, fun hzero => ?_⟩
    have hbit := congrArg (BitVec.getMsbD · p) hzero
    simp only [BitVec.getMsbD_and, hlit, hmask, BitVec.getMsbD_zero] at hbit
    exact absurd hbit (by decide)

end Display

/-! ### The instruction -/

namespace Machine

variable {m : Machine} {x y : Register} {rows : Nibble} {p q : Nat}

/-- A set bit of one of the bytes from `I` on comes to lie on the pixel `(p, q)` when they are drawn
at the place that `Vx` and `Vy` hold. -/
def Flips (m : Machine) (x y : Register) (rows : Nibble) (p q : Nat) : Prop :=
  ∃ j < rows.val, ∃ i < 8,
    p = ((m.reg x).toNat + i) % 64 ∧ q = ((m.reg y).toNat + j) % 32 ∧
      (m.memory.read (.behind m.index j)).toNat.testBit (7 - i) = true

theorem covers_sprite_iff :
    Display.Covers (m.sprite rows) (m.reg x).toNat (m.reg y).toNat p q ↔ m.Flips x y rows p q := by
  constructor
  · rintro ⟨j, b, hb, i, hi, hp, hq, hset⟩
    have hj : j < rows.val := by
      have hlength := (List.getElem?_eq_some_iff.mp hb).1
      rwa [sprite, Memory.length_readRun] at hlength
    rw [sprite, Memory.getElem?_readRun _ hj] at hb
    obtain rfl := Option.some.inj hb
    exact ⟨j, hj, i, hi, hp, hq, hset⟩
  · rintro ⟨j, hj, i, hi, hp, hq, hset⟩
    exact ⟨j, _, Memory.getElem?_readRun _ hj, i, hi, hp, hq, hset⟩

theorem reg_setFlag_eq_one_iff {flag : Bool} : (m.setFlag flag).reg .vF = 1 ↔ flag = true := by
  rw [setFlag, setReg, reg, Registers.get_set_same]
  cases flag <;> decide

theorem reg_setFlag_eq_zero_iff {flag : Bool} : (m.setFlag flag).reg .vF = 0 ↔ ¬ flag = true := by
  rw [setFlag, setReg, reg, Registers.get_set_same]
  cases flag <;> decide

/-- **Drawing flips the covered pixels, and its flags are exact.** The instruction `DRAW` gets
through whatever the machine is like. A pixel is different afterwards if and only if a set bit of
the sprite comes to lie on it; `VF` is one if a pixel was turned off that way, and otherwise zero;
and the display counts as changed if it did before or a pixel was flipped. The other registers, and
everything else, are as they were. -/
theorem draw_flips_covered (m : Machine) (random : UInt8) (x y : Register) (rows : Nibble) :
    let done := m.execute random (.draw x y rows)
    let after := done.machine
    done.fault = none ∧
    (∀ p q, after.display.pixel p q ≠ m.display.pixel p q ↔ m.Flips x y rows p q) ∧
    (after.reg .vF = 1 ↔ ∃ p q, m.Flips x y rows p q ∧ m.display.pixel p q = true) ∧
    (after.reg .vF = 0 ↔ ¬ ∃ p q, m.Flips x y rows p q ∧ m.display.pixel p q = true) ∧
    (after.redraw = true ↔ m.redraw = true ∨ ∃ p q, m.Flips x y rows p q) ∧
    (∀ r, r ≠ .vF → after.reg r = m.reg r) ∧
    after = { m with
      display := after.display, redraw := after.redraw, registers := after.registers } := by
  intro done after
  have hafter : after = _ := m.drawSprite_eq x y rows
  have hfits := m.length_sprite_le rows
  have hcollision := Display.collision_draw_iff (d := m.display) (x := (m.reg x).toNat)
    (y := (m.reg y).toNat) hfits
  have hchanged := Display.changed_draw_iff_covers (d := m.display) (x := (m.reg x).toNat)
    (y := (m.reg y).toNat) hfits
  simp only [covers_sprite_iff] at hcollision hchanged
  rw [hafter]
  refine ⟨rfl, fun p q => ?_, ?_, ?_, ?_, fun r hr => ?_, rfl⟩
  · exact (Display.pixel_draw_ne_iff hfits).trans covers_sprite_iff
  · exact reg_setFlag_eq_one_iff.trans hcollision
  · exact reg_setFlag_eq_zero_iff.trans (not_congr hcollision)
  · exact Bool.or_eq_true_iff.trans (or_congr_right hchanged)
  · exact Registers.get_set_of_ne hr

end Machine

end Chip8
