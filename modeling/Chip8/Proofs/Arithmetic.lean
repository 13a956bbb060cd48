import Chip8.Proofs.Drawing

/-!
# Arithmetic with a flag

Five instructions yield a result and a flag: addition, the two subtractions and the two shifts. Both
are computed from the values that the operands had before the instruction. The flag is written
before the result, so that the result stays if both go to `VF`; then either operand may be `VF`, and
the two operands may be the same register.

Below, bytes are taken for the numbers that they stand for. A result is then what remains of an
exact number modulo 256. The flags of an addition and of a shift to the left say what is missing: in
front of the result, they make it exact again.

## Main definitions

* `Machine.Yields` — an instruction has left a result and a flag, and nothing else
* `Machine.joined` — the number that a flag makes with a result behind it

## Main results

* `BinaryOp.toNat_result_add` and its like — results as numbers
* `Machine.yields_setFlag_setReg` — a flag and a result written in this order are left in place
* `Machine.Yields.joined_eq` — a flag makes up for what its result lacks
* `Machine.arithmetic_exact` — what the five instructions yield, whichever registers they use
-/

namespace Chip8

/-! ### Results as numbers -/

namespace BinaryOp

variable {a b : UInt8}

theorem toNat_result_add : ((add.result a b).toNat : Int) = (a.toNat + b.toNat) % 256 := by
  rw [result, UInt8.toNat_add]
  omega

theorem toNat_result_sub : ((sub.result a b).toNat : Int) = (a.toNat - b.toNat) % 256 := by
  have hb := b.toNat_lt
  rw [result, UInt8.toNat_sub]
  omega

theorem toNat_result_subFrom : ((subFrom.result a b).toNat : Int) = (b.toNat - a.toNat) % 256 :=
  toNat_result_sub

end BinaryOp

namespace Shift

variable {a : UInt8}

theorem toNat_result_right : ((right.result a).toNat : Int) = a.toNat / 2 := by
  rw [result, UInt8.toNat_shiftRight, UInt8.toNat_one, Nat.one_mod, Nat.shiftRight_eq_div_pow]
  omega

theorem toNat_result_left : ((left.result a).toNat : Int) = 2 * a.toNat % 256 := by
  rw [result, UInt8.toNat_shiftLeft, UInt8.toNat_one, Nat.one_mod, Nat.shiftLeft_eq]
  omega

end Shift

namespace Machine

variable {m : Machine} {done : Outcome} {x y : Register} {result : Int} {flag : Prop}

/-! ### What is left in registers -/

/-- An instruction has left a result in `Vx` and a flag in `VF`, and changed nothing else. If `Vx`
is `VF`, it holds the result. -/
structure Yields (m : Machine) (done : Outcome) (x : Register) (result : Int) (flag : Prop) :
    Prop where
  ok : done.fault = none
  result : ((done.machine.reg x).toNat : Int) = result
  one_iff : x ≠ .vF → (done.machine.reg .vF = 1 ↔ flag)
  zero_iff : x ≠ .vF → (done.machine.reg .vF = 0 ↔ ¬ flag)
  others : ∀ r, r ≠ x → r ≠ .vF → done.machine.reg r = m.reg r
  rest : done.machine = { m with registers := done.machine.registers }

/-- A flag and then a result are left where they were written, unless the result takes the place of
the flag. -/
theorem yields_setFlag_setReg {b : UInt8} {set : Bool} (hresult : (b.toNat : Int) = result)
    (hflag : set = true ↔ flag) :
    m.Yields { machine := (m.setFlag set).setReg x b } x result flag := by
  -- the result is written last, so it leaves every register but its own as the flag left it
  have hother : ∀ r, r ≠ x → ((m.setFlag set).setReg x b).reg r = (m.setFlag set).reg r :=
    fun r hr => Registers.get_set_of_ne hr
  refine ⟨rfl, ?_, fun hx => ?_, fun hx => ?_, fun r hr hr' => ?_, rfl⟩
  · rw [setReg, reg, Registers.get_set_same, hresult]
  · rw [hother _ hx.symm, reg_setFlag_eq_one_iff, hflag]
  · rw [hother _ hx.symm, reg_setFlag_eq_zero_iff, hflag]
  · exact (hother r hr).trans (Registers.get_set_of_ne hr')

/-- An operation with a flag writes it before the result. -/
theorem execute_binary_of_flag? {op : BinaryOp} {set : Bool}
    (h : op.flag? (m.reg x) (m.reg y) = some set) (random : UInt8) :
    m.execute random (.binary op x y) =
      { machine := (m.setFlag set).setReg x (op.result (m.reg x) (m.reg y)) } := by
  simp only [execute, combine, h]

theorem execute_shift (m : Machine) (random : UInt8) (s : Shift) (x : Register) :
    m.execute random (.shift s x) =
      let a := m.reg x
      { machine := (m.setFlag (s.flag m.options.legacyShiftFlag a)).setReg x (s.result a) } :=
  rfl

/-- The number that the flag makes with the byte in `Vx` behind it. -/
def joined (m : Machine) (x : Register) : Int := 256 * (m.reg .vF).toNat + (m.reg x).toNat

/-- A flag that says whether a number is too large for its byte makes up for what is missing. -/
theorem Yields.joined_eq {n : Int} (h : m.Yields done x (n % 256) flag) (hx : x ≠ .vF)
    (hflag : flag ↔ 256 ≤ n) (hlow : 0 ≤ n) (hhigh : n < 512) :
    done.machine.joined x = n := by
  have hresult := h.result
  unfold joined
  by_cases hlarge : 256 ≤ n
  · rw [(h.one_iff hx).mpr (hflag.mpr hlarge), UInt8.toNat_one]
    omega
  · rw [(h.zero_iff hx).mpr (mt hflag.mp hlarge), UInt8.toNat_zero]
    omega

/-! ### The five instructions -/

theorem yields_add (m : Machine) (random : UInt8) (x y : Register) :
    m.Yields (m.execute random (.binary .add x y)) x
      (((m.reg x).toNat + (m.reg y).toNat) % 256)
      (256 ≤ ((m.reg x).toNat : Int) + (m.reg y).toNat) := by
  rw [execute_binary_of_flag? rfl]
  refine yields_setFlag_setReg BinaryOp.toNat_result_add ?_
  rw [decide_eq_true_iff, BinaryOp.gt_sub_iff]
  omega

theorem yields_sub (m : Machine) (random : UInt8) (x y : Register) :
    m.Yields (m.execute random (.binary .sub x y)) x
      (((m.reg x).toNat - (m.reg y).toNat) % 256)
      (((m.reg y).toNat : Int) < (m.reg x).toNat) := by
  rw [execute_binary_of_flag? rfl]
  refine yields_setFlag_setReg BinaryOp.toNat_result_sub ?_
  rw [decide_eq_true_iff, gt_iff_lt, UInt8.lt_iff_toNat_lt, Int.ofNat_lt]

theorem yields_subFrom (m : Machine) (random : UInt8) (x y : Register) :
    m.Yields (m.execute random (.binary .subFrom x y)) x
      (((m.reg y).toNat - (m.reg x).toNat) % 256)
      (((m.reg x).toNat : Int) < (m.reg y).toNat) := by
  rw [execute_binary_of_flag? rfl]
  refine yields_setFlag_setReg BinaryOp.toNat_result_subFrom ?_
  rw [decide_eq_true_iff, gt_iff_lt, UInt8.lt_iff_toNat_lt, Int.ofNat_lt]

theorem yields_shiftRight (m : Machine) (random : UInt8) (x : Register) :
    m.Yields (m.execute random (.shift .right x)) x ((m.reg x).toNat / 2)
      (((m.reg x).toNat : Int) % 2 = 1) := by
  rw [execute_shift]
  refine yields_setFlag_setReg Shift.toNat_result_right ?_
  rw [Shift.flag_right_iff]
  omega

theorem yields_shiftLeft (m : Machine) (random : UInt8) (x : Register) :
    m.Yields (m.execute random (.shift .left x)) x (2 * (m.reg x).toNat % 256)
      (if m.options.legacyShiftFlag then ((m.reg x).toNat : Int) % 16 = 15
        else 128 ≤ ((m.reg x).toNat : Int)) := by
  rw [execute_shift]
  refine yields_setFlag_setReg Shift.toNat_result_left ?_
  rw [Shift.flag_left_iff]
  split
  · omega
  · omega

/-- **Arithmetic is right whichever registers it uses.** For the values `a` and `b` that `Vx` and
`Vy` held before, an addition yields the sum with a flag if it passes a byte, the subtractions the
difference with a flag if it is positive, and the shifts the half with the bit shifted out and the
double with the bit shifted out or, in the old manner, with whether the low four bits were all set.
The registers `x` and `y` may be the same, and each of them may be `VF`. If `Vx` is not `VF`, the
sum and, unless in the old manner, the double can be read off the flag and the result exactly. -/
theorem arithmetic_exact (m : Machine) (random : UInt8) (x y : Register) :
    let a : Int := (m.reg x).toNat
    let b : Int := (m.reg y).toNat
    let legacy := m.options.legacyShiftFlag
    let sum := m.execute random (.binary .add x y)
    let double := m.execute random (.shift .left x)
    m.Yields sum x ((a + b) % 256) (256 ≤ a + b) ∧
    m.Yields (m.execute random (.binary .sub x y)) x ((a - b) % 256) (b < a) ∧
    m.Yields (m.execute random (.binary .subFrom x y)) x ((b - a) % 256) (a < b) ∧
    m.Yields (m.execute random (.shift .right x)) x (a / 2) (a % 2 = 1) ∧
    m.Yields double x (2 * a % 256) (if legacy then a % 16 = 15 else 128 ≤ a) ∧
    (x ≠ .vF → sum.machine.joined x = a + b) ∧
    (x ≠ .vF → legacy = false → double.machine.joined x = 2 * a) := by
  intro a b legacy sum double
  have ha := (m.reg x).toNat_lt
  have hb := (m.reg y).toNat_lt
  have hsum : m.Yields sum x ((a + b) % 256) (256 ≤ a + b) := yields_add m random x y
  have hdouble : m.Yields double x (2 * a % 256) (if legacy then a % 16 = 15 else 128 ≤ a) :=
    yields_shiftLeft m random x
  refine ⟨hsum, yields_sub m random x y, yields_subFrom m random x y,
    yields_shiftRight m random x, hdouble, fun hx => ?_, fun hx hlegacy => ?_⟩
  · exact hsum.joined_eq hx Iff.rfl (by omega) (by omega)
  · rw [hlegacy] at hdouble
    refine hdouble.joined_eq hx ?_ (by omega) (by omega)
    rw [if_neg Bool.false_ne_true]
    omega

/-- The flag register as an operand: it is read before the carry takes its place. A shift puts the
bit that it loses there. -/
theorem arithmetic_exact_of_flag_operand :
    let m := (new .standard).run [.setRegister .v0 200, .setRegister .vF 100]
    let sum := (m.execute 0 (.binary .add .v0 .vF)).machine
    let double := (m.execute 0 (.shift .left .v0)).machine
    Register.v0 ≠ .vF ∧ m.options.legacyShiftFlag = false ∧
      sum.joined .v0 = 300 ∧ sum.reg .vF = 1 ∧ double.joined .v0 = 400 := by
  intro m sum double
  have hx : Register.v0 ≠ .vF := by decide
  have hlegacy : m.options.legacyShiftFlag = false := rfl
  obtain ⟨hsum, -, -, -, -, hjoined, hjoined'⟩ := arithmetic_exact m 0 .v0 .vF
  have hcarry : sum.reg .vF = 1 := (hsum.one_iff hx).mpr (by decide)
  exact ⟨hx, hlegacy, hjoined hx, hcarry, hjoined' hx hlegacy⟩

end Machine

end Chip8
