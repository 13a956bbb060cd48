import Chip8.Proofs.JumpTargets

/-!
# Where control goes on

The program counter is moved in several places: by the fetch, by a skip, by a transfer of control,
and back again while an instruction waits for a key. Together they send every cycle that gets
through to exactly one place, which can be read off the instruction and the machine before the
cycle: the target of a jump or a call, the innermost return address, the instruction itself while it
waits, the instruction after the next one if a skip skips, and otherwise the next one.

Jumps go to exact sums. All other places are counted modulo 2 ^ 16, so that the words at the end of
that range are followed by those at its beginning.

## Main definitions

* `Condition.Met` — what a skip asks for, in terms of registers and held keys
* `Condition.negated` — the condition of the skip that goes the other way
* `Machine.Successor` — where an instruction is followed, rule by rule

## Main results

* `Condition.holds_iff_met` — a skip skips exactly if what it asks for is met
* `Machine.Successor.pc_execute`, `Machine.exists_successor` — the rules are followed, and one of
  them applies
* `Machine.cycle_goes_to_successor` — a cycle goes on where the rules say and nowhere else
-/

namespace Chip8

/-! ### Skips -/

/-- A register holds the code of a key that is held. -/
def Machine.NamesHeldKey (m : Machine) (x : Register) : Prop :=
  ∃ k : Key, (m.reg x).toNat = k.code.val ∧ m.keypad.isHeld k = true

theorem Machine.keyHeld_iff {m : Machine} {x : Register} :
    m.keyHeld x = true ↔ m.NamesHeldKey x := by
  unfold keyHeld NamesHeldKey
  cases hkey : Key.ofByte? (m.reg x) with
  | none =>
    refine iff_of_false Bool.false_ne_true ?_
    rintro ⟨k, hcode, -⟩
    cases hkey.symm.trans (Key.ofByte?_eq_some_iff.mpr hcode)
  | some k =>
    have hcode := Key.ofByte?_eq_some_iff.mp hkey
    constructor
    · exact fun hheld => ⟨k, hcode, hheld⟩
    · rintro ⟨j, hcode', hheld⟩
      obtain rfl := Option.some.inj (hkey.symm.trans (Key.ofByte?_eq_some_iff.mpr hcode'))
      exact hheld

namespace Condition

variable {m : Machine} {c : Condition}

/-- What a skip asks for. -/
def Met (m : Machine) : Condition → Prop
  | isByte x b => m.reg x = b
  | notByte x b => m.reg x ≠ b
  | same x y => m.reg x = m.reg y
  | differ x y => m.reg x ≠ m.reg y
  | held x => m.NamesHeldKey x
  | notHeld x => ¬ m.NamesHeldKey x

/-- What the skip of the other kind asks for, with the same operands. -/
def negated : Condition → Condition
  | isByte x b => notByte x b
  | notByte x b => isByte x b
  | same x y => differ x y
  | differ x y => same x y
  | held x => notHeld x
  | notHeld x => held x

/-- A skip skips exactly if what it asks for is met. -/
theorem holds_iff_met : c.holds m = true ↔ c.Met m := by
  cases c with
  | isByte x b | same x y => exact beq_iff_eq
  | notByte x b | differ x y => exact bne_iff_ne
  | held x => exact Machine.keyHeld_iff
  | notHeld x => rw [holds, Met, Bool.not_eq_true', Bool.eq_false_iff, ne_eq, Machine.keyHeld_iff]

theorem holds_negated (c : Condition) (m : Machine) : c.negated.holds m = !c.holds m := by
  cases c with
  | isByte | same | held => rfl
  | notByte | differ | notHeld => exact (Bool.not_not _).symm

/-- The fetch has no influence on what a skip looks at. -/
theorem met_fetched : c.Met m.fetched ↔ c.Met m := by
  cases c with
  | _ => exact Iff.rfl

end Condition

namespace Machine

/-! ### The rules -/

/-- An instruction is followed by another one than the next. -/
def Diverts (m : Machine) : Instruction → Prop
  | .jump _ | .call _ | .jumpOffset _ | .ret => True
  | .skip c => c.Met m
  | .awaitKey _ => ∀ k, m.keypad.isHeld k = false
  | _ => False

/-- Where an instruction at the program counter is followed. -/
inductive Successor (m : Machine) : Instruction → Nat → Prop where
  | jump (target : Address) : Successor m (.jump target) target.val
  | call (target : Address) : Successor m (.call target) target.val
  /-- The sum is exact, also where it passes the end of memory. -/
  | jumpOffset (base : Address) : Successor m (.jumpOffset base) (base.val + (m.reg .v0).toNat)
  | ret {back : UInt16} {rest : List UInt16} (top : m.stack = back :: rest) :
      Successor m .ret back.toNat
  /-- While no key is held, an instruction that waits for one is followed by itself. -/
  | wait {x : Register} (idle : ∀ k, m.keypad.isHeld k = false) :
      Successor m (.awaitKey x) m.pc.toNat
  | skip {c : Condition} (met : c.Met m) : Successor m (.skip c) ((m.pc.toNat + 4) % 0x10000)
  | next {i : Instruction} (straight : ¬ m.Diverts i) : Successor m i ((m.pc.toNat + 2) % 0x10000)

/-! ### The rules are followed -/

variable {m : Machine} {random : UInt8} {i : Instruction} {n : Nat}

theorem pc_execute_skip (m : Machine) (random : UInt8) (c : Condition) :
    (m.execute random (.skip c)).machine.pc = if c.holds m then m.pc + 2 else m.pc := by
  simp only [execute]
  split
  · rfl
  · rfl

theorem diverts_fetched : m.fetched.Diverts i ↔ m.Diverts i := by
  cases i with
  | skip c => exact Condition.met_fetched
  | _ => exact Iff.rfl

/-- An instruction that is followed by the next one leaves the program counter to the fetch. -/
theorem pc_execute_of_not_diverts (h : ¬ m.Diverts i) (random : UInt8) :
    (m.execute random i).machine.pc = m.pc := by
  cases i with
  | jump | call | jumpOffset | ret => exact absurd trivial h
  | skip c => rw [pc_execute_skip, if_neg (mt Condition.holds_iff_met.mp h)]
  | awaitKey x =>
    have hheld : m.keypad.first? ≠ none := mt Keypad.first?_eq_none_iff.mp h
    obtain ⟨k, hfirst⟩ := Option.ne_none_iff_exists'.mp hheld
    simp only [execute, awaitKey, hfirst]
    rfl
  | binary op x y =>
    obtain ⟨registers, hcombine⟩ := m.exists_combine_eq op x y
    simp only [execute, hcombine]
  | restore x => simp only [execute, restoreUpTo]
  | _ => rfl

theorem toNat_fetched_pc (m : Machine) : m.fetched.pc.toNat = (m.pc.toNat + 2) % 0x10000 :=
  UInt16.toNat_add _ _

/-- An instruction that gets through goes on where the rules say. -/
theorem Successor.pc_execute (h : m.Successor i n)
    (hok : (m.fetched.execute random i).fault = none) :
    (m.fetched.execute random i).machine.pc.toNat = n := by
  cases h with
  | jump target => exact (pc_execute_of_jump rfl hok).2
  | call target => exact (pc_execute_of_jump rfl hok).2
  | jumpOffset base => exact (pc_execute_of_jump rfl hok).2
  | @ret back rest top =>
    have hstack : m.fetched.stack = back :: rest := top
    rw [execute, ret_of_cons hstack]
  | wait idle =>
    have hnone : m.fetched.keypad.first? = none := Keypad.first?_eq_none_iff.mpr idle
    simp only [execute, awaitKey, hnone]
    -- the fetch has moved the program counter, modulo 2 ^ 16, and the wait moves it back
    rw [fetched, UInt16.add_sub_cancel]
  | @skip c met =>
    have hholds : c.holds m.fetched = true :=
      Condition.holds_iff_met.mpr (Condition.met_fetched.mpr met)
    rw [pc_execute_skip, if_pos hholds, UInt16.toNat_add, toNat_fetched_pc]
    simp only [UInt16.reduceToNat]
    omega
  | next straight =>
    rw [pc_execute_of_not_diverts (mt diverts_fetched.mp straight), toNat_fetched_pc]

/-- For an instruction that gets through there is a rule. -/
theorem exists_successor (hok : (m.fetched.execute random i).fault = none) :
    ∃ n, m.Successor i n := by
  by_cases hdiverts : m.Diverts i
  · cases i with
    | jump target => exact ⟨_, .jump target⟩
    | call target => exact ⟨_, .call target⟩
    | jumpOffset base => exact ⟨_, .jumpOffset base⟩
    | ret =>
      rcases m.fetched.ret_cases with ⟨-, hfail⟩ | ⟨back, rest, hstack, -⟩
      · rw [execute, hfail] at hok
        cases hok
      · exact ⟨_, .ret hstack⟩
    | skip c => exact ⟨_, .skip hdiverts⟩
    | awaitKey x => exact ⟨_, .wait hdiverts⟩
    | _ => exact hdiverts.elim
  · exact ⟨_, .next hdiverts⟩

/-- A cycle that gets through goes on where the rules say, and nowhere else. -/
theorem successor_iff_pc_cycle (hrun : m.halted = false) (hok : (m.cycle random).fault = none) :
    m.Successor m.instruction n ↔ (m.cycle random).machine.pc.toNat = n := by
  have hok' : (m.fetched.execute random m.instruction).fault = none :=
    (fault_cycle hrun random).symm.trans hok
  rw [cycle_eq_of_ok hrun hok']
  constructor
  · exact fun h => h.pc_execute hok'
  · rintro rfl
    obtain ⟨n, hn⟩ := exists_successor hok'
    rwa [hn.pc_execute hok']

/-- Of two skips of opposite kinds with the same operands one skips and one does not. -/
theorem opposite_skips (m : Machine) (random : UInt8) (c : Condition) :
    let pc := (m.execute random (.skip c)).machine.pc
    let pc' := (m.execute random (.skip c.negated)).machine.pc
    pc = m.pc + 2 ∧ pc' = m.pc ∨ pc = m.pc ∧ pc' = m.pc + 2 := by
  simp only [pc_execute_skip, Condition.holds_negated]
  cases c.holds m with
  | true => exact Or.inl ⟨rfl, rfl⟩
  | false => exact Or.inr ⟨rfl, rfl⟩

/-- **Every instruction has an exact successor.** A cycle of a running machine that does not fault
leaves the program counter where the rules say, for whatever it executes, and the rules leave no
other place. Numbers above fifteen name no key, so none is held for them; and of two skips of
opposite kinds with the same operands, executed in the same state, exactly one skips. -/
theorem cycle_goes_to_successor :
    (∀ (m : Machine) (random : UInt8), m.halted = false → (m.cycle random).fault = none →
      ∀ n, m.Successor m.instruction n ↔ (m.cycle random).machine.pc.toNat = n) ∧
    (∀ (m : Machine) (x : Register), 15 < (m.reg x).toNat → ¬ m.NamesHeldKey x) ∧
    (∀ (m : Machine) (random : UInt8) (c : Condition),
      let pc := (m.execute random (.skip c)).machine.pc
      let pc' := (m.execute random (.skip c.negated)).machine.pc
      pc = m.pc + 2 ∧ pc' = m.pc ∨ pc = m.pc ∧ pc' = m.pc + 2) := by
  refine ⟨fun m random hrun hok n => successor_iff_pc_cycle hrun hok, ?_, opposite_skips⟩
  rintro m x hlarge ⟨k, hcode, -⟩
  have hk := k.code.isLt
  omega

/-- A skip in the last word that the program counter can point to skips the first one. -/
theorem cycle_goes_to_successor_around_end :
    let m := { new .standard with memory := Memory.initial.write (.wrap 0xFFFE) 0x30, pc := 0xFFFE }
    m.halted = false ∧ (m.cycle 0).fault = none ∧ m.Successor m.instruction 2 ∧
      (m.cycle 0).machine.pc.toNat = 2 := by
  intro m
  have hrun : m.halted = false := rfl
  have hhigh : m.memory.read (.wrap m.pc) = 0x30 := Memory.read_write_same _ _ _
  have hlow : m.memory.read (.wrap (m.pc + 1)) = 0 := by
    have hother : Address.wrap 0xFFFF ≠ .wrap 0xFFFE := by decide
    have hzero : Font.byteAt (.wrap 0xFFFF) = 0 := by decide
    exact (Memory.read_write_of_ne _ _ hother).trans ((Memory.read_initial _).trans hzero)
  have hskip : m.instruction = .skip (.isByte .v0 0) := by
    rw [instruction, opcode, hhigh, hlow]
    decide
  have hok : (m.cycle 0).fault = none := by
    rw [fault_cycle hrun, hskip]
    rfl
  have hsuccessor : m.Successor m.instruction 2 := by
    have hzero : (Condition.isByte .v0 0).Met m := rfl
    have hplace : (m.pc.toNat + 4) % 0x10000 = 2 := by decide
    have hskips := Successor.skip hzero
    rwa [hplace, ← hskip] at hskips
  obtain ⟨hcycles, -, -⟩ := cycle_goes_to_successor
  exact ⟨hrun, hok, hsuccessor, (hcycles m 0 hrun hok 2).mp hsuccessor⟩

end Machine

end Chip8
