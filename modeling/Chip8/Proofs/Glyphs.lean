import Chip8.Proofs.Drawing
import Chip8.Proofs.Stores

/-!
# The font lasts

A new machine holds the font, and nothing but it, below the program area. Loads leave that part of
memory alone, and so does every instruction that does not store to it: over runs of any length, a
byte there is lost only to a store that had its address among those that it wrote to, and such a
store may also come around the end of memory. As long as the font is not stored to, pointing `I` to
the glyph of a digit and drawing five rows shows that glyph.

## Main definitions

* `Machine.ready` — the machine as an operation's instruction finds it

## Main results

* `Machine.perform_eq_execute` — an operation in terms of the instruction it executes
* `Font.byteAt_behind_address`, `Font.byteAt_of_outside` — what a new machine holds
* `Machine.sprite_eq_glyph` — the sprite that a digit's glyph is
* `Machine.font_survives` — the font over runs, and what drawing a glyph shows
-/

namespace Chip8

/-! ### The font in a new machine -/

namespace Font

variable {a : Address} {b : UInt8} {d : Nibble}

theorem length_bytes : bytes.length = 80 := by decide

/-- There is nothing but zeros around the font. -/
theorem byteAt_of_outside (h : a.val < 0x50 ∨ 0xA0 ≤ a.val) : byteAt a = 0 := by
  unfold byteAt
  split
  · next hstart =>
    have hlow : 0x50 ≤ a.val := hstart
    have hend : bytes.length ≤ a.val - Layout.fontStart := by
      rw [length_bytes, Layout.fontStart]
      omega
    rw [List.getD_eq_getElem?_getD, List.getElem?_eq_none hend, Option.getD_none]
  · rfl

theorem val_behind_address (hb : b.toNat = d.val) {r : Nat} (hr : r < 5) :
    (Address.behind (address b) r).val = 0x50 + 5 * d.val + r := by
  have hd := d.isLt
  simp only [Address.behind, address, hb, Layout.fontStart, glyphHeight, UInt16.toNat_ofNat']
  omega

/-- The rows of a glyph lie one behind the other from where `I` is pointed to. -/
theorem byteAt_behind_address (hb : b.toNat = d.val) (r : Fin 5) :
    byteAt (.behind (address b) r.val) = (glyphs.get d).get r := by
  have hb' : b = UInt8.ofNat d.val := by
    rw [← hb, UInt8.ofNat_toNat]
  rw [Address.behind_eq_wrap, hb']
  exact byteAt_glyph d r

/-- A glyph lies where its digit says. -/
theorem byteAt_of_val_eq {r : Fin 5} (ha : a.val = 0x50 + 5 * d.val + r.val) :
    byteAt a = (glyphs.get d).get r := by
  have hd := d.isLt
  have hb : (UInt8.ofNat d.val).toNat = d.val := by
    rw [UInt8.toNat_ofNat']
    omega
  have hplace : a = .behind (address (UInt8.ofNat d.val)) r.val :=
    Fin.ext (ha.trans (val_behind_address hb r.isLt).symm)
  rw [hplace, byteAt_behind_address hb]

theorem getElem?_glyph (d : Nibble) (r : Fin 5) :
    (glyph d)[r.val]? = some ((glyphs.get d).get r) := by
  rw [glyph, Vector.getElem?_toList, Vector.getElem?_eq_getElem r.isLt]
  rfl

end Font

namespace Machine

variable {m : Machine} {op point draw : Operation} {i : Instruction} {random : UInt8}
  {options : Options} {ops : List Operation} {a : Address} {x y z : Register}
  {d : Nibble}

/-! ### Operations that execute an instruction -/

/-- The machine as the instruction of an operation finds it: a cycle has fetched the word. -/
def ready (m : Machine) : Operation → Machine
  | .cycle _ => m.fetched
  | _ => m

/-- Whether an instruction is fetched or not, it finds the same memory, registers and display. -/
theorem ready_eq (m : Machine) (op : Operation) :
    ∃ pc redraw, m.ready op = { m with pc := pc, redraw := redraw } := by
  cases op with
  | cycle random => exact ⟨m.pc + 2, false, rfl⟩
  | _ => exact ⟨m.pc, m.redraw, rfl⟩

/-- An operation does what its instruction does. -/
theorem perform_eq_execute (h : m.executed? op = some i) (hi : i.transfers = false) :
    ∃ random, (m.perform op).machine = ((m.ready op).execute random i).machine := by
  cases op with
  | cycle random =>
    obtain ⟨hrun, rfl⟩ := executed?_cycle_eq_some_iff.mp h
    have hok := fault_execute_of_not_transfers (m := m.fetched) hi random
    refine ⟨random, ?_⟩
    rw [perform, cycle_eq_of_ok hrun hok, ready]
  | execute j random =>
    obtain rfl : j = i := Option.some.inj h
    exact ⟨random, rfl⟩
  | _ => cases h

/-! ### The font on the way -/

/-- Below the program area, only stores change what a new machine held. -/
theorem read_run_new (ha : a.val < 0x200) (h : ¬ (new options).StoresDuring a ops) :
    ((new options).run ops).memory.read a = (new options).memory.read a :=
  read_run_of_not_stores (fun _ _ _ => ha) h

/-- While the glyph of a digit is as it was, it is the sprite that `I` can be pointed to. -/
theorem sprite_eq_glyph (hindex : m.index = Font.address (m.reg x)) (hx : (m.reg x).toNat = d.val)
    (hfont : ∀ a : Address, 0x50 ≤ a.val → a.val ≤ 0x9F → m.memory.read a = Font.byteAt a) :
    m.sprite 5 = Font.glyph d := by
  have hd := d.isLt
  apply List.ext_getElem?
  intro r
  have hrows : m.sprite 5 = m.memory.readRun m.index 5 := rfl
  rcases Nat.lt_or_ge r 5 with hr | hr
  · have hplace := Font.val_behind_address hx hr
    have hread : m.memory.read (.behind m.index r) = Font.byteAt (.behind m.index r) := by
      rw [hindex]
      exact hfont _ (by omega) (by omega)
    have hbyte : Font.byteAt (.behind m.index r) = (Font.glyphs.get d).get ⟨r, hr⟩ := by
      rw [hindex]
      exact Font.byteAt_behind_address hx ⟨r, hr⟩
    rw [hrows, Memory.getElem?_readRun _ hr, hread, hbyte]
    exact (Font.getElem?_glyph d ⟨r, hr⟩).symm
  · rw [List.getElem?_eq_none, List.getElem?_eq_none]
    · rw [Font.glyph, Vector.length_toList]
      exact hr
    · rw [hrows, Memory.length_readRun]
      exact hr

/-- Pointing `I` to the glyph of a digit and drawing five rows draws that glyph. -/
theorem display_perform_glyph (hpoint : m.executed? point = some (.pointGlyph x))
    (hdraw : (m.perform point).machine.executed? draw = some (.draw y z 5))
    (hx : (m.reg x).toNat = d.val)
    (hfont : ∀ a : Address, 0x50 ≤ a.val → a.val ≤ 0x9F → m.memory.read a = Font.byteAt a) :
    ((m.perform point).machine.perform draw).machine.display =
      (m.display.draw (Font.glyph d) (m.reg y).toNat (m.reg z).toNat).display := by
  obtain ⟨random, hpointed⟩ := perform_eq_execute hpoint rfl
  obtain ⟨pc, redraw, hready⟩ := m.ready_eq point
  obtain ⟨random', hdrawn⟩ := perform_eq_execute hdraw rfl
  obtain ⟨pc', redraw', hready'⟩ := (m.perform point).machine.ready_eq draw
  rw [hdrawn, hready', hpointed, hready]
  -- neither pointing nor fetching changes what is drawn, and where
  have hsprite : { m with index := Font.address (m.reg x) }.sprite 5 = Font.glyph d :=
    sprite_eq_glyph rfl hx hfont
  rw [← hsprite]
  rfl

/-- **The font lasts.** In every run from a new machine, a byte below the program area holds what it
held at first, unless an instruction has stored to it: the rows of the glyphs one behind the other,
five bytes for each digit, and zeros around them. If the font was not stored to, then pointing `I`
to the glyph of a digit and drawing five rows flips exactly the pixels of that glyph, over the edges
if need be, whether the two instructions are fetched or not. -/
theorem font_survives (options : Options) (ops : List Operation) :
    let m := (new options).run ops
    (∀ a : Address, a.val < 0x200 → ¬ (new options).StoresDuring a ops →
      m.memory.read a = (new options).memory.read a) ∧
    (∀ (d : Nibble) (r : Fin 5) (a : Address), a.val = 0x50 + 5 * d.val + r.val →
      (new options).memory.read a = (Font.glyphs.get d).get r) ∧
    (∀ a : Address, a.val < 0x50 ∨ 0xA0 ≤ a.val → (new options).memory.read a = 0) ∧
    ((∀ a : Address, 0x50 ≤ a.val → a.val ≤ 0x9F → ¬ (new options).StoresDuring a ops) →
      ∀ (point draw : Operation) (x y z : Register) (d : Nibble),
        m.executed? point = some (.pointGlyph x) → (m.reg x).toNat = d.val →
        (m.perform point).machine.executed? draw = some (.draw y z 5) →
        ∀ p q, ((m.perform point).machine.perform draw).machine.display.pixel p q ≠
            m.display.pixel p q ↔
          Display.Covers (Font.glyph d) (m.reg y).toNat (m.reg z).toNat p q) := by
  intro m
  have hnew : ∀ a, (new options).memory.read a = Font.byteAt a := Memory.read_initial
  refine ⟨fun a ha hstores => read_run_new ha hstores, fun d r a ha => ?_, fun a ha => ?_,
    fun hstores point draw x y z d hpoint hx hdraw p q => ?_⟩
  · rw [hnew, Font.byteAt_of_val_eq ha]
  · rw [hnew, Font.byteAt_of_outside ha]
  · have hfont : ∀ a : Address, 0x50 ≤ a.val → a.val ≤ 0x9F → m.memory.read a = Font.byteAt a := by
      intro a hlow hhigh
      have hbelow : a.val < 0x200 := Nat.lt_of_le_of_lt hhigh (by decide)
      exact (read_run_new hbelow (hstores a hlow hhigh)).trans (hnew a)
    have hlength : (Font.glyph d).length ≤ 32 := by
      rw [Font.glyph, Vector.length_toList]
      decide
    rw [display_perform_glyph hpoint hdraw hx hfont]
    exact Display.pixel_draw_ne_iff hlength

/-- Digits stored from the end of memory on reach the lowest byte, but not the font: a seven can
still be drawn. -/
theorem font_survives_store_around_end :
    let ops : List Operation :=
      [.load [0x12, 0x00] 0, .setRegister .v0 7, .setIndex 0xFFE, .execute (.storeDigits .v0) 0]
    let m := (new .standard).run ops
    let pointed := (m.perform (.execute (.pointGlyph .v0) 0)).machine
    let drawn := (pointed.perform (.execute (.draw .vF .vF 5) 0)).machine
    (∀ a : Address, 1 ≤ a.val → a.val < 0x200 → ¬ (new .standard).StoresDuring a ops) ∧
      m.memory.read 0x73 = 0xF0 ∧ drawn.display.pixel 3 0 ≠ m.display.pixel 3 0 := by
  intro ops m pointed drawn
  have hstores : ∀ a : Address, 1 ≤ a.val → a.val < 0x200 →
      ¬ (new .standard).StoresDuring a ops := by
    rintro a hlow hhigh (⟨i, hload, -⟩ | ⟨i, hset, -⟩ | ⟨i, hset, -⟩ | ⟨i, hstore, hplace⟩ | hend)
    · cases hload
    · cases hset
    · cases hset
    · obtain rfl : .storeDigits .v0 = i := Option.some.inj hstore
      obtain ⟨k, hk, hk'⟩ := hplace
      have hlength : k < 3 := hk
      have hindex : a.val = (0xFFE + k) % 0x1000 := hk'
      omega
    · exact hend
  obtain ⟨hkept, hglyph, -, hdraw⟩ := font_survives .standard ops
  have hread : m.memory.read 0x73 = 0xF0 :=
    (hkept 0x73 (by decide) (hstores 0x73 (by decide) (by decide))).trans (hglyph 7 0 0x73 rfl)
  have hfont : ∀ a : Address, 0x50 ≤ a.val → a.val ≤ 0x9F →
      ¬ (new .standard).StoresDuring a ops := fun a hlow hhigh =>
    hstores a (Nat.le_trans (by decide) hlow) (Nat.lt_of_le_of_lt hhigh (by decide))
  have hpixel := hdraw hfont (.execute (.pointGlyph .v0) 0) (.execute (.draw .vF .vF 5) 0)
    .v0 .vF .vF 7 rfl rfl rfl 3 0
  refine ⟨hstores, hread, hpixel.mpr ?_⟩
  exact ⟨0, 0xF0, rfl, 3, by decide, rfl, rfl, by decide⟩

end Machine

end Chip8
