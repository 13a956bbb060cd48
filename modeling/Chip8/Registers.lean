import Chip8.Nibble

/-!
# The general registers

## Main definitions

* `Registers` — a byte for each of `V0` to `VF`
* `Registers.get`, `Registers.set` — one register
* `Registers.upTo` — the values of `V0` to `Vx`
* `Registers.fill` — `V0` to `Vx` replaced

## Main results

* `Registers.get_set`, `Registers.get_fill` — what is held after a change
* `Registers.ext` — the registers are determined by what each holds
-/

namespace Chip8

/-- A byte for each register. -/
structure Registers where
  values : Vector UInt8 16
  deriving DecidableEq

namespace Registers

/-- The registers in which each `r` holds `f r`. -/
def ofFn (f : Register → UInt8) : Registers := ⟨Vector.ofFn fun k => f ⟨k⟩⟩

def zero : Registers := ofFn fun _ => 0

def get (rs : Registers) (r : Register) : UInt8 := rs.values[r.index.val]

def set (rs : Registers) (r : Register) (b : UInt8) : Registers :=
  ⟨rs.values.set r.index.val b r.index.isLt⟩

/-- The values of `V0` to `Vx`. -/
def upTo (rs : Registers) (x : Register) : List UInt8 := x.upTo.map rs.get

/-- The registers with the first ones replaced by bytes in order. -/
def fill (rs : Registers) (bytes : List UInt8) : Registers :=
  ofFn fun r => bytes.getD r.index.val (rs.get r)

/-- The values of all registers in order. -/
def toList (rs : Registers) : List UInt8 := rs.values.toList

/-! ### What is held -/

@[ext] theorem ext {rs rs' : Registers} (h : ∀ r, rs.get r = rs'.get r) : rs = rs' := by
  cases rs; cases rs'
  congr 1
  exact Vector.ext fun i hi => h ⟨⟨i, hi⟩⟩

@[simp] theorem get_ofFn (f : Register → UInt8) (r : Register) : (ofFn f).get r = f r := by
  simp [get, ofFn]

@[simp] theorem get_zero (r : Register) : zero.get r = 0 := get_ofFn _ _

theorem get_set (rs : Registers) (r s : Register) (b : UInt8) :
    (rs.set r b).get s = if s = r then b else rs.get s := by
  cases r; cases s
  simp only [get, set, Vector.getElem_set, Register.mk.injEq, Fin.ext_iff,
    eq_comm]

@[simp] theorem get_set_same (rs : Registers) (r : Register) (b : UInt8) :
    (rs.set r b).get r = b := by
  simp [get_set]

/-- Of two bytes for the same register, the last one is held. -/
theorem set_set (rs : Registers) (r : Register) (b c : UInt8) :
    (rs.set r b).set r c = rs.set r c := by
  ext s
  simp only [get_set]
  split <;> rfl

theorem get_fill (rs : Registers) (bytes : List UInt8) (r : Register) :
    (rs.fill bytes).get r = bytes.getD r.index.val (rs.get r) := get_ofFn _ _

end Registers

end Chip8
