import Chip8.Proofs.CallStack

/-!
# Faults

Which instruction faults when, and with what. A fault leaves everything as it was; only a cycle
records it.

## Main definitions

* `Machine.Faults` — the rules by which instructions fault

## Main results

* `Machine.fault_execute_iff` — an instruction faults exactly by the rules
* `Machine.Faults.congr` — the rules look at three parts of the machine only
* `Machine.Reachable.faults_exact` — faults on reachable machines, and what they leave alone
-/

namespace Chip8.Machine

/-- The rules by which instructions fault. The address that a fault carries is that of the
instruction, two below the program counter. -/
inductive Faults (m : Machine) : Instruction → Fault → Prop where
  /-- A return without an open call. -/
  | underflow (empty : m.stack = []) : m.Faults .ret (.stackUnderflow (m.pc - 2))
  /-- A call while the call stack is full, wherever it leads. -/
  | overflow {target : Address} (full : m.stack.length = 16) :
      m.Faults (.call target) (.stackOverflow (m.pc - 2))
  /-- A jump into the interpreter area. -/
  | jumpBelow {target : Address} (below : target.val < 0x200) :
      m.Faults (.jump target) (.jumpBelowProgram (m.pc - 2) target.pointer)
  /-- A call into the interpreter area while the call stack has room. -/
  | callBelow {target : Address} (free : m.stack.length < 16) (below : target.val < 0x200) :
      m.Faults (.call target) (.jumpBelowProgram (m.pc - 2) target.pointer)
  /-- A jump to an address that `V0` fails to lift out of the interpreter area. -/
  | offsetBelow {base : Address} {target : UInt16}
      (sum : target.toNat = base.val + (m.reg .v0).toNat) (below : target.toNat < 0x200) :
      m.Faults (.jumpOffset base) (.jumpBelowProgram (m.pc - 2) target)

variable {m m' : Machine} {random : UInt8} {i : Instruction} {f : Fault}
  {target : UInt16} {stack : List UInt16}

theorem Faults.source_eq (h : m.Faults i f) : f.source = m.pc - 2 := by
  cases h with
  | underflow | overflow | jumpBelow | callBelow | offsetBelow => rfl

theorem Faults.transfers (h : m.Faults i f) : i.transfers = true := by
  cases h with
  | underflow | overflow | jumpBelow | callBelow | offsetBelow => rfl

/-- The rules look at the program counter, the call stack and the registers only. -/
theorem Faults.congr (h : m.Faults i f) (hpc : m'.pc = m.pc) (hstack : m'.stack = m.stack)
    (hregisters : m'.registers = m.registers) : m'.Faults i f := by
  have hv0 : m'.reg .v0 = m.reg .v0 := congrArg (Registers.get · .v0) hregisters
  cases h with
  | underflow empty =>
    rw [← hpc]
    exact .underflow (hstack.trans empty)
  | overflow full =>
    rw [← hpc]
    exact .overflow (hstack ▸ full)
  | jumpBelow below =>
    rw [← hpc]
    exact .jumpBelow below
  | callBelow free below =>
    rw [← hpc]
    exact .callBelow (hstack ▸ free) below
  | offsetBelow sum below =>
    rw [← hpc]
    exact .offsetBelow (hv0 ▸ sum) below

/-! ### The instructions fault by the rules -/

theorem fault_jumpTo_iff :
    (m.jumpTo target stack).fault = some f ↔
      target.toNat < 0x200 ∧ f = .jumpBelowProgram (m.pc - 2) target := by
  rcases m.jumpTo_cases target stack with ⟨hlt, hfail⟩ | ⟨hle, hgo⟩
  · rw [hfail, fail, Option.some_inj, eq_comm]
    exact (and_iff_right hlt).symm
  · rw [hgo]
    exact iff_of_false nofun fun h => Nat.not_lt.mpr hle h.1

theorem fault_ret_iff : m.ret.fault = some f ↔ m.Faults .ret f := by
  rcases m.ret_cases with ⟨hstack, hfail⟩ | ⟨back, rest, hstack, hgo⟩
  · rw [hfail, fail, Option.some_inj]
    constructor
    · rintro rfl
      exact .underflow hstack
    · rintro ⟨⟩
      rfl
  · rw [hgo]
    refine iff_of_false nofun fun h => ?_
    cases h with
    | underflow empty => exact List.cons_ne_nil _ _ (hstack.symm.trans empty)

theorem fault_jump_iff {target : Address} :
    (m.jumpTo target.pointer stack).fault = some f ↔ m.Faults (.jump target) f := by
  rw [fault_jumpTo_iff, Address.toNat_pointer]
  constructor
  · rintro ⟨hbelow, rfl⟩
    exact .jumpBelow hbelow
  · intro h
    cases h with
    | jumpBelow below => exact ⟨below, rfl⟩

theorem fault_call_iff {target : Address} (hdepth : m.stack.length ≤ 16) :
    (m.call target.pointer).fault = some f ↔ m.Faults (.call target) f := by
  by_cases hfull : m.stack.length = Layout.stackDepth
  · rw [call_of_full hfull, fail, Option.some_inj]
    constructor
    · rintro rfl
      exact .overflow hfull
    · intro h
      cases h with
      | overflow => rfl
      | callBelow free => exact absurd hfull (Nat.ne_of_lt free)
  · have hfree : m.stack.length < 16 := Nat.lt_of_le_of_ne hdepth hfull
    rw [call_of_free hfull, fault_jumpTo_iff, Address.toNat_pointer]
    constructor
    · rintro ⟨hbelow, rfl⟩
      exact .callBelow hfree hbelow
    · intro h
      cases h with
      | overflow full => exact absurd full hfull
      | callBelow _ below => exact ⟨below, rfl⟩

theorem fault_jumpOffset_iff {base : Address} :
    (m.jumpTo (base.pointer + (m.reg .v0).toUInt16) stack).fault = some f ↔
      m.Faults (.jumpOffset base) f := by
  have hsum := toNat_offset base (m.reg .v0)
  rw [fault_jumpTo_iff]
  constructor
  · rintro ⟨hbelow, rfl⟩
    exact .offsetBelow hsum hbelow
  · intro h
    cases h with
    | offsetBelow sum below =>
      -- no two pointers have the same sum, since it does not wrap
      obtain rfl := UInt16.toNat_inj.mp (sum.trans hsum.symm)
      exact ⟨below, rfl⟩

/-- An instruction faults exactly by the rules, on a machine whose call stack fits. -/
theorem fault_execute_iff (hdepth : m.stack.length ≤ 16) :
    (m.execute random i).fault = some f ↔ m.Faults i f := by
  cases htransfers : i.transfers with
  | false =>
    rw [fault_execute_of_not_transfers htransfers]
    refine iff_of_false nofun fun h => ?_
    rw [h.transfers] at htransfers
    cases htransfers
  | true =>
    cases i with
    | ret => exact fault_ret_iff
    | jump target => exact fault_jump_iff
    | call target => exact fault_call_iff hdepth
    | jumpOffset base => exact fault_jumpOffset_iff
    | _ => exact Bool.noConfusion htransfers

/-- **Faults are exact and atomic.** A reachable machine never has more than sixteen calls open. Its
instructions fault exactly by the rules, and then change nothing; no instruction touches the record
of a fault. A cycle that faults leaves the machine as it was before the fetch, but with the fault
recorded and the display counted as unchanged. -/
theorem Reachable.faults_exact (h : m.Reachable) :
    m.stack.length ≤ 16 ∧
    (∀ random i f, (m.execute random i).fault = some f ↔ m.Faults i f) ∧
    (∀ random i, (m.execute random i).fault ≠ none → (m.execute random i).machine = m) ∧
    (∀ random i, (m.execute random i).machine.fault = m.fault) ∧
    (m.halted = false → ∀ random f, (m.cycle random).fault = some f →
      (m.cycle random).machine = { m with redraw := false, fault := some f }) := by
  have hdepth : m.stack.length ≤ 16 := h.length_stack_le
  refine ⟨hdepth, fun random i f => fault_execute_iff hdepth, fun random i hf => ?_,
    fault_machine_execute m, fun hrun random f hf => machine_cycle_of_fault hrun hf⟩
  obtain ⟨f, hf⟩ := Option.ne_none_iff_exists'.mp hf
  exact machine_execute_of_fault hf

/-- With sixteen calls open, a seventeenth into the interpreter area overflows the stack and
changes nothing. -/
theorem faults_exact_of_seventeenth_call :
    let m := (new .standard).run (List.replicate 16 (.execute (.call 0x300) 0))
    m.Reachable ∧ (m.execute 0 (.call 0x100)).fault = some (.stackOverflow 0x2FE) ∧
      (m.execute 0 (.call 0x100)).machine = m := by
  intro m
  have hreachable : m.Reachable := ⟨_, _, rfl⟩
  obtain ⟨-, hfaults, hatomic, -, -⟩ := hreachable.faults_exact
  have hrule : m.Faults (.call 0x100) (.stackOverflow (m.pc - 2)) := .overflow rfl
  have hpc : m.pc - 2 = 0x2FE := by decide
  rw [hpc] at hrule
  have hfault := (hfaults 0 _ _).mpr hrule
  refine ⟨hreachable, hfault, hatomic 0 _ ?_⟩
  rw [hfault]
  exact Option.some_ne_none _

end Chip8.Machine
