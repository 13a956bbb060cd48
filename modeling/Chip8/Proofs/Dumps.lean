import Chip8.Proofs.Drawing

/-!
# Registers in memory

Three instructions move registers to memory and back: one dumps the registers up to `Vx` from `I`
on, one loads them, and one stores the decimal digits of a register. All of them count from `I`
modulo 2 ^ 16 and take each place modulo the size of memory. At most sixteen places are used, so no
two of them are the same, wherever `I` points.

What was dumped is therefore there until something else is stored to one of its places, and loading
gives it back; what was loaded is dumped to where it came from; and stored digits can be loaded and
make up the number again.

## Main results

* `Memory.read_writeRun`, `Memory.writeRun_readRun` — bytes one behind the other, written and read
* `Registers.upTo_fill`, `Machine.reg_restoreUpTo_of_le` — registers that were loaded
* `Machine.dump_fits_restore` — dumping, loading and storing digits fit together
-/

namespace Chip8

/-! ### Places -/

/-- Places less than the size of memory apart are different. -/
theorem Address.behind_ne {pointer : UInt16} {j k : Nat} (hjk : j < k) (hk : k < j + 0x1000) :
    behind pointer j ≠ behind pointer k := by
  intro hplace
  have hval := congrArg Fin.val hplace
  simp only [behind] at hval
  omega

namespace Memory

variable {m : Memory} {pointer : UInt16} {bytes : List UInt8} {k : Nat} {b : UInt8}

theorem write_read (m : Memory) (a : Address) : m.write a (m.read a) = m := by
  ext c
  rw [read_write]
  split
  · next hplace => rw [hplace]
  · rfl

/-- A byte that was written to the first place stays there when others are written behind it. -/
theorem read_writeRun_first (h : bytes.length < 0x1000) :
    (m.writeRun (pointer + 1) bytes).read (.wrap pointer) = m.read (.wrap pointer) := by
  refine read_writeRun_of_ne fun k hk hplace => ?_
  have hsame : Address.behind pointer 0 = .behind pointer (k + 1) := by
    rw [Address.behind_succ]
    exact Fin.ext hplace
  exact Address.behind_ne (Nat.zero_lt_succ k) (by omega) hsame

/-- Bytes that do not go around all of memory are found where they were written. -/
theorem read_writeRun (h : bytes.length ≤ 0x1000) (hb : bytes[k]? = some b) :
    (m.writeRun pointer bytes).read (.behind pointer k) = b := by
  induction bytes generalizing m pointer k with
  | nil => cases hb
  | cons c rest ih =>
    have hrest : rest.length < 0x1000 := h
    cases k with
    | zero =>
      -- the other bytes are written later, but do not come around to this place
      obtain rfl : c = b := Option.some.inj hb
      have hfirst : Address.behind pointer 0 = .wrap pointer := rfl
      rw [writeRun, hfirst, read_writeRun_first hrest, read_write_same]
    | succ k =>
      rw [writeRun, Address.behind_succ]
      exact ih (Nat.le_of_lt hrest) hb

/-- Bytes written back to where they were read from change nothing. -/
theorem writeRun_readRun (m : Memory) (pointer : UInt16) (n : Nat) :
    m.writeRun pointer (m.readRun pointer n) = m := by
  induction n generalizing pointer with
  | zero => rfl
  | succ n ih => rw [readRun, writeRun, write_read, ih]

end Memory

namespace Registers

variable {rs : Registers} {bytes : List UInt8} {x r : Register} {b : UInt8}

theorem length_upTo (rs : Registers) (x : Register) : (rs.upTo x).length = x.index.val + 1 := by
  rw [upTo, List.length_map, Register.length_upTo]

theorem getElem?_upTo (rs : Registers) (h : r.index ≤ x.index) :
    (rs.upTo x)[r.index.val]? = some (rs.get r) := by
  have hr : r.index.val < x.index.val + 1 := Nat.lt_succ_of_le h
  simp [upTo, Register.upTo, Register.all, hr]

theorem get_fill_of_getElem? (h : bytes[r.index.val]? = some b) : (rs.fill bytes).get r = b := by
  rw [get_fill, List.getD_eq_getElem?_getD, h, Option.getD_some]

/-- Registers that were replaced hold what they were replaced by. -/
theorem upTo_fill (rs : Registers) (h : bytes.length = x.index.val + 1) :
    (rs.fill bytes).upTo x = bytes := by
  apply List.ext_getElem?
  intro k
  rcases Nat.lt_or_ge k bytes.length with hk | hk
  · have hx := x.index.isLt
    let r : Register := ⟨⟨k, by omega⟩⟩
    have hr : r.index ≤ x.index := Nat.le_of_lt_succ (Nat.lt_of_lt_of_eq hk h)
    have hb : bytes[r.index.val]? = some bytes[k] := List.getElem?_eq_getElem hk
    rw [hb]
    exact (getElem?_upTo _ hr).trans (congrArg some (get_fill_of_getElem? hb))
  · rw [List.getElem?_eq_none hk, List.getElem?_eq_none]
    rw [length_upTo, ← h]
    exact hk

end Registers

namespace Machine

variable {m between : Machine} {x r : Register}

/-! ### The three instructions -/

/-- A loaded register holds the byte at its place. -/
theorem reg_restoreUpTo_of_le (h : r.index ≤ x.index) :
    (m.restoreUpTo x).reg r = m.memory.read (.behind m.index r.index.val) :=
  Registers.get_fill_of_getElem? (Memory.getElem?_readRun _ (Nat.lt_succ_of_le h))

theorem reg_restoreUpTo_of_lt (h : x.index < r.index) : (m.restoreUpTo x).reg r = m.reg r :=
  (effect_restoreUpTo x).reg (Fin.not_le.mpr h)

/-- A dumped register is found at its place. -/
theorem read_storeRun_upTo (h : r.index ≤ x.index) :
    (m.storeRun (m.registers.upTo x)).memory.read (.behind m.index r.index.val) = m.reg r := by
  have hlength : (m.registers.upTo x).length ≤ 0x1000 := by
    have hx := x.index.isLt
    rw [Registers.length_upTo]
    omega
  exact Memory.read_writeRun hlength (Registers.getElem?_upTo _ h)

/-- As long as its place was left alone, a dumped register is loaded as it was. -/
theorem reg_restoreUpTo_of_dumped (hindex : between.index = m.index)
    (hkept : ∀ k ≤ x.index.val, between.memory.read (.behind m.index k) =
      (m.storeRun (m.registers.upTo x)).memory.read (.behind m.index k))
    (h : r.index ≤ x.index) : (between.restoreUpTo x).reg r = m.reg r := by
  rw [reg_restoreUpTo_of_le h, hindex, hkept _ h, read_storeRun_upTo h]

/-- Loading touches registers only. -/
theorem restoreUpTo_eq (m : Machine) (x : Register) :
    m.restoreUpTo x = { m with registers := (m.restoreUpTo x).registers } := by
  rw [restoreUpTo]

theorem memory_restoreUpTo (m : Machine) (x : Register) : (m.restoreUpTo x).memory = m.memory := by
  rw [restoreUpTo]

theorem index_restoreUpTo (m : Machine) (x : Register) : (m.restoreUpTo x).index = m.index := by
  rw [restoreUpTo]

/-- Loaded registers are dumped to where they came from. -/
theorem memory_storeRun_restoreUpTo (m : Machine) (x : Register) :
    ((m.restoreUpTo x).storeRun ((m.restoreUpTo x).registers.upTo x)).memory = m.memory := by
  have hlength := m.memory.length_readRun m.index (x.index.val + 1)
  have hbytes : (m.restoreUpTo x).registers.upTo x = m.memory.readRun m.index (x.index.val + 1) :=
    Registers.upTo_fill m.registers hlength
  rw [storeRun, hbytes, memory_restoreUpTo, index_restoreUpTo, Memory.writeRun_readRun]

/-- The decimal digits of a byte make up the byte. -/
theorem toNat_decimalDigits (b : UInt8) :
    (b / 100).toNat ≤ 9 ∧ (b % 100 / 10).toNat ≤ 9 ∧ (b % 10).toNat ≤ 9 ∧
      100 * (b / 100).toNat + 10 * (b % 100 / 10).toNat + (b % 10).toNat = b.toNat := by
  have hb := b.toNat_lt
  simp only [UInt8.toNat_div, UInt8.toNat_mod, UInt8.reduceToNat]
  omega

/-- Stored digits are loaded into the registers that count them. -/
theorem reg_restoreUpTo_of_digits {b : UInt8} (h : r.index ≤ 2)
    (hb : (decimalDigits (m.reg x))[r.index.val]? = some b) :
    ((m.storeRun (decimalDigits (m.reg x))).restoreUpTo ⟨2⟩).reg r = b := by
  have hlength : (decimalDigits (m.reg x)).length ≤ 0x1000 := Nat.le_of_ble_eq_true rfl
  exact (reg_restoreUpTo_of_le h).trans (Memory.read_writeRun hlength hb)

/-- **Dumping, loading and storing digits fit together**, wherever `I` points. Registers that were
dumped are loaded as they were, whatever else has changed in between, as long as `I` and the places
that were dumped to are as the dump left them; loading changes nothing else. Registers that were
loaded are dumped to where they came from, so memory stays as it is. The digits of a register that
were stored are loaded into the first three registers, each of them at most nine, and make up what
the register held; nothing is stored but the digits. None of this faults. -/
theorem dump_fits_restore (m : Machine) (random random' : UInt8) (x : Register) :
    (let dumped := m.execute random (.store x)
     dumped.fault = none ∧
      ∀ between : Machine, between.index = dumped.machine.index →
        (∀ k ≤ x.index.val, between.memory.read (.behind m.index k) =
          dumped.machine.memory.read (.behind m.index k)) →
        let loaded := between.execute random' (.restore x)
        loaded.fault = none ∧
        (∀ r, r.index ≤ x.index → loaded.machine.reg r = m.reg r) ∧
        (∀ r, x.index < r.index → loaded.machine.reg r = between.reg r) ∧
        loaded.machine = { between with registers := loaded.machine.registers }) ∧
    (let loaded := m.execute random (.restore x)
     let dumped := loaded.machine.execute random' (.store x)
     loaded.fault = none ∧ dumped.fault = none ∧ dumped.machine.memory = m.memory) ∧
    (let shown := m.execute random (.storeDigits x)
     let loaded := shown.machine.execute random' (.restore ⟨2⟩)
     let digit (k : Nibble) := (loaded.machine.reg ⟨k⟩).toNat
     shown.fault = none ∧ loaded.fault = none ∧
      digit 0 ≤ 9 ∧ digit 1 ≤ 9 ∧ digit 2 ≤ 9 ∧
      100 * digit 0 + 10 * digit 1 + digit 2 = (m.reg x).toNat ∧
      ∀ a, (∀ k < 3, a ≠ .behind m.index k) →
        loaded.machine.memory.read a = m.memory.read a) := by
  refine ⟨⟨rfl, fun between hindex hkept => ⟨rfl, fun r hr => ?_, fun r hr => ?_, ?_⟩⟩,
    ⟨rfl, rfl, ?_⟩, ?_⟩
  · exact reg_restoreUpTo_of_dumped hindex hkept hr
  · exact reg_restoreUpTo_of_lt hr
  · exact restoreUpTo_eq between x
  · exact memory_storeRun_restoreUpTo m x
  · intro shown loaded digit
    have hhundreds : loaded.machine.reg ⟨0⟩ = m.reg x / 100 :=
      reg_restoreUpTo_of_digits (by decide) rfl
    have htens : loaded.machine.reg ⟨1⟩ = m.reg x % 100 / 10 :=
      reg_restoreUpTo_of_digits (by decide) rfl
    have hones : loaded.machine.reg ⟨2⟩ = m.reg x % 10 :=
      reg_restoreUpTo_of_digits (by decide) rfl
    obtain ⟨hhundreds', htens', hones', hmake⟩ := toNat_decimalDigits (m.reg x)
    simp only [digit, hhundreds, htens, hones]
    refine ⟨rfl, rfl, hhundreds', htens', hones', hmake, fun a ha => ?_⟩
    have hloaded : loaded.machine.memory = shown.machine.memory := memory_restoreUpTo _ _
    rw [hloaded]
    exact Memory.read_writeRun_of_ne fun k hk hplace => ha k hk (Fin.ext hplace)

/-- Two registers dumped around the end of memory are loaded again after all registers were cleared
and the byte behind them was written to. -/
theorem dump_fits_restore_around_end :
    let m := (new .standard).run [.setRegister .v0 7, .setRegister ⟨1⟩ 8, .setIndex 0xFFFF]
    let dumped := (m.execute 0 (.store ⟨1⟩)).machine
    let between :=
      { dumped with registers := .zero, memory := dumped.memory.write (.behind 0xFFFF 2) 9 }
    let loaded := (between.execute 0 (.restore ⟨1⟩)).machine
    between.index = dumped.index ∧
      (∀ k ≤ 1, between.memory.read (.behind 0xFFFF k) = dumped.memory.read (.behind 0xFFFF k)) ∧
      loaded.reg .v0 = 7 ∧ loaded.reg ⟨1⟩ = 8 := by
  intro m dumped between loaded
  have hindex : between.index = dumped.index := rfl
  have hkept : ∀ k ≤ 1,
      between.memory.read (.behind 0xFFFF k) = dumped.memory.read (.behind 0xFFFF k) := by
    intro k hk
    exact Memory.read_write_of_ne _ _ (Address.behind_ne (by omega) (by omega))
  obtain ⟨⟨-, hdumped⟩, -, -⟩ := dump_fits_restore m 0 0 ⟨1⟩
  obtain ⟨-, hloaded, -, -⟩ := hdumped between hindex hkept
  refine ⟨hindex, hkept, ?_, ?_⟩
  · exact (hloaded .v0 (by decide)).trans (by decide)
  · exact (hloaded ⟨1⟩ (by decide)).trans (by decide)

end Machine

end Chip8
