import Chip8.Proofs.Runs

/-!
# Transfers of control

Four instructions transfer control: jumps, jumps with an offset, calls and returns. They are the
only ones that touch the call stack and the only ones that fault. This file says what each of
them does, and that the other instructions leave all of that alone.

## Main definitions

* `Instruction.transfers` — whether an instruction transfers control
* `Machine.Undisturbed` — the parts of a machine that no other instruction touches are as before
* `Machine.Transferred` — a transfer that failed and changed nothing, or one that succeeded

## Main results

* `Machine.undisturbed_execute`, `Machine.fault_execute_of_not_transfers` — what the other
  instructions leave alone
* `Machine.jumpTo_cases`, `Machine.call_cases`, `Machine.ret_cases` — what a transfer does
* `Machine.transferred_execute` — what transfers leave alone
* `Machine.machine_execute_of_fault`, `Machine.machine_cycle_of_fault` — a fault changes nothing
* `Machine.cycle_cases` — what a cycle does
-/

namespace Chip8

/-- Whether an instruction transfers control. -/
def Instruction.transfers : Instruction → Bool
  | .ret | .jump _ | .call _ | .jumpOffset _ => true
  | _ => false

namespace Machine

variable {m after : Machine} {random : UInt8} {i : Instruction} {f : Fault}
  {target : UInt16} {stack : List UInt16}

/-! ### Instructions that do not transfer control -/

/-- Arithmetic changes registers only, whether it writes a flag or not. -/
theorem exists_combine_eq (m : Machine) (op : BinaryOp) (x y : Register) :
    ∃ registers, m.combine op x y = { m with registers := registers } := by
  simp only [combine]
  cases op.flag? (m.reg x) (m.reg y) with
  | none => exact ⟨_, rfl⟩
  | some flag => exact ⟨_, rfl⟩

/-- Waiting for a key either ends, and a register is written, or goes on, and the program counter
goes back. -/
theorem exists_awaitKey_eq (m : Machine) (x : Register) :
    ∃ registers pc, m.awaitKey x = { m with registers := registers, pc := pc } := by
  unfold awaitKey
  cases m.keypad.first? with
  | none => exact ⟨_, _, rfl⟩
  | some k => exact ⟨_, _, rfl⟩

/-- The parts of a machine that belong to the front end or to transfers of control are as
before. -/
structure Undisturbed (m after : Machine) : Prop where
  options : after.options = m.options
  keypad : after.keypad = m.keypad
  clock : after.clock = m.clock
  running : after.timers.running = m.timers.running
  stack : after.stack = m.stack
  fault : after.fault = m.fault

theorem Undisturbed.refl (m : Machine) : m.Undisturbed m := ⟨rfl, rfl, rfl, rfl, rfl, rfl⟩

theorem undisturbed_combine (op : BinaryOp) (x y : Register) :
    m.Undisturbed (m.combine op x y) := by
  obtain ⟨registers, hcombine⟩ := m.exists_combine_eq op x y
  rw [hcombine]
  exact ⟨rfl, rfl, rfl, rfl, rfl, rfl⟩

theorem undisturbed_drawSprite (x y : Register) (rows : Nibble) :
    m.Undisturbed (m.drawSprite x y rows) := by
  unfold drawSprite setFlag setReg
  exact ⟨rfl, rfl, rfl, rfl, rfl, rfl⟩

theorem undisturbed_awaitKey (x : Register) : m.Undisturbed (m.awaitKey x) := by
  obtain ⟨registers, pc, hawait⟩ := m.exists_awaitKey_eq x
  rw [hawait]
  exact ⟨rfl, rfl, rfl, rfl, rfl, rfl⟩

theorem undisturbed_restoreUpTo (x : Register) : m.Undisturbed (m.restoreUpTo x) := by
  unfold restoreUpTo
  exact ⟨rfl, rfl, rfl, rfl, rfl, rfl⟩

/-- An instruction that does not transfer control leaves the call stack, the recorded fault and
all that belongs to the front end alone. -/
theorem undisturbed_execute (h : i.transfers = false) (random : UInt8) :
    m.Undisturbed (m.execute random i).machine := by
  cases i with
  | ret | jump | call | jumpOffset => exact Bool.noConfusion h
  | skip c =>
    simp only [execute]
    split
    · exact ⟨rfl, rfl, rfl, rfl, rfl, rfl⟩
    · exact Undisturbed.refl m
  | binary op x y => exact undisturbed_combine op x y
  | draw x y rows => exact undisturbed_drawSprite x y rows
  | awaitKey x => exact undisturbed_awaitKey x
  | restore x => exact undisturbed_restoreUpTo x
  | _ => exact ⟨rfl, rfl, rfl, rfl, rfl, rfl⟩

/-- An instruction that does not transfer control does not fault. -/
theorem fault_execute_of_not_transfers (h : i.transfers = false) (random : UInt8) :
    (m.execute random i).fault = none := by
  cases i with
  | ret | jump | call | jumpOffset => exact Bool.noConfusion h
  | _ => rfl

/-! ### The four transfers -/

theorem jumpTo_of_lt (h : target.toNat < Layout.programStart) :
    m.jumpTo target stack = m.fail (.jumpBelowProgram m.source target) := by
  rw [jumpTo, if_pos h]

theorem jumpTo_of_le (h : Layout.programStart ≤ target.toNat) :
    m.jumpTo target stack = { machine := { m with pc := target, stack := stack } } := by
  rw [jumpTo, if_neg (Nat.not_lt.mpr h)]

theorem call_of_full (h : m.stack.length = Layout.stackDepth) :
    m.call target = m.fail (.stackOverflow m.source) := by
  rw [call, if_pos h]

theorem call_of_free (h : m.stack.length ≠ Layout.stackDepth) :
    m.call target = m.jumpTo target (m.pc :: m.stack) := by
  rw [call, if_neg h]

theorem ret_of_nil (h : m.stack = []) : m.ret = m.fail (.stackUnderflow m.source) := by
  simp only [ret, h]

theorem ret_of_cons {back : UInt16} {rest : List UInt16} (h : m.stack = back :: rest) :
    m.ret = { machine := { m with pc := back, stack := rest } } := by
  simp only [ret, h]

theorem jumpTo_cases (m : Machine) (target : UInt16) (stack : List UInt16) :
    (target.toNat < Layout.programStart ∧
      m.jumpTo target stack = m.fail (.jumpBelowProgram m.source target)) ∨
    (Layout.programStart ≤ target.toNat ∧
      m.jumpTo target stack = { machine := { m with pc := target, stack := stack } }) := by
  rcases Nat.lt_or_ge target.toNat Layout.programStart with hlt | hle
  · exact Or.inl ⟨hlt, jumpTo_of_lt hlt⟩
  · exact Or.inr ⟨hle, jumpTo_of_le hle⟩

/-- A call overflows the stack, or fails like a jump, or pushes the program counter. -/
theorem call_cases (m : Machine) (target : UInt16) :
    (m.stack.length = Layout.stackDepth ∧
      m.call target = m.fail (.stackOverflow m.source)) ∨
    (m.stack.length ≠ Layout.stackDepth ∧ target.toNat < Layout.programStart ∧
      m.call target = m.fail (.jumpBelowProgram m.source target)) ∨
    (m.stack.length ≠ Layout.stackDepth ∧ Layout.programStart ≤ target.toNat ∧
      m.call target = { machine := { m with pc := target, stack := m.pc :: m.stack } }) := by
  by_cases hfull : m.stack.length = Layout.stackDepth
  · exact Or.inl ⟨hfull, call_of_full hfull⟩
  · have hcall : m.call target = m.jumpTo target (m.pc :: m.stack) := call_of_free hfull
    rcases m.jumpTo_cases target (m.pc :: m.stack) with ⟨hlt, hjump⟩ | ⟨hle, hjump⟩
    · exact Or.inr (Or.inl ⟨hfull, hlt, hcall.trans hjump⟩)
    · exact Or.inr (Or.inr ⟨hfull, hle, hcall.trans hjump⟩)

theorem ret_cases (m : Machine) :
    (m.stack = [] ∧ m.ret = m.fail (.stackUnderflow m.source)) ∨
    ∃ back rest, m.stack = back :: rest ∧
      m.ret = { machine := { m with pc := back, stack := rest } } := by
  cases hstack : m.stack with
  | nil => exact Or.inl ⟨rfl, ret_of_nil hstack⟩
  | cons back rest => exact Or.inr ⟨back, rest, rfl, ret_of_cons hstack⟩

/-- The target of a jump with an offset is an exact sum: it is too small to wrap. -/
theorem toNat_offset (base : Address) (b : UInt8) :
    (base.pointer + b.toUInt16).toNat = base.val + b.toNat := by
  have hbase := base.isLt
  have hb := b.toNat_lt
  rw [UInt16.toNat_add, Address.toNat_pointer, UInt8.toNat_toUInt16]
  exact Nat.mod_eq_of_lt (by omega)

/-! ### What transfers leave alone -/

/-- A transfer of control fails and changes nothing, or it succeeds and changes at most the program
counter and the call stack. -/
def Transferred (m : Machine) (o : Outcome) : Prop :=
  (∃ f, o = m.fail f) ∨ ∃ pc stack, o = { machine := { m with pc := pc, stack := stack } }

theorem transferred_jumpTo (m : Machine) (target : UInt16) (stack : List UInt16) :
    m.Transferred (m.jumpTo target stack) := by
  rcases m.jumpTo_cases target stack with ⟨-, hfail⟩ | ⟨-, hgo⟩
  · exact Or.inl ⟨_, hfail⟩
  · exact Or.inr ⟨_, _, hgo⟩

theorem transferred_call (m : Machine) (target : UInt16) :
    m.Transferred (m.call target) := by
  rcases m.call_cases target with ⟨-, hfail⟩ | ⟨-, -, hfail⟩ | ⟨-, -, hgo⟩
  · exact Or.inl ⟨_, hfail⟩
  · exact Or.inl ⟨_, hfail⟩
  · exact Or.inr ⟨_, _, hgo⟩

theorem transferred_ret (m : Machine) : m.Transferred m.ret := by
  rcases m.ret_cases with ⟨-, hfail⟩ | ⟨back, rest, -, hgo⟩
  · exact Or.inl ⟨_, hfail⟩
  · exact Or.inr ⟨_, _, hgo⟩

theorem transferred_execute (h : i.transfers = true) (random : UInt8) :
    m.Transferred (m.execute random i) := by
  cases i with
  | ret => exact m.transferred_ret
  | jump target => exact m.transferred_jumpTo _ _
  | call target => exact m.transferred_call _
  | jumpOffset base => exact m.transferred_jumpTo _ _
  | _ => exact Bool.noConfusion h

/-- No instruction touches the record of a fault, whether it faults itself or not. -/
theorem fault_machine_execute (m : Machine) (random : UInt8) (i : Instruction) :
    (m.execute random i).machine.fault = m.fault := by
  cases htransfers : i.transfers with
  | false => exact (undisturbed_execute htransfers random).fault
  | true =>
    rcases transferred_execute htransfers random with ⟨f, hfail⟩ | ⟨pc, stack, hgo⟩
    · rw [hfail]
      rfl
    · rw [hgo]

/-! ### Faults change nothing -/

/-- An instruction that faults changes nothing. -/
theorem machine_execute_of_fault (h : (m.execute random i).fault = some f) :
    (m.execute random i).machine = m := by
  cases htransfers : i.transfers with
  | false =>
    rw [fault_execute_of_not_transfers htransfers] at h
    cases h
  | true =>
    rcases transferred_execute htransfers random with ⟨f', hfail⟩ | ⟨pc, stack, hgo⟩
    · rw [hfail]
      rfl
    · rw [hgo] at h
      cases h

/-- A cycle that faults leaves the machine as it was, with the fault recorded and the display
counted as unchanged. -/
theorem machine_cycle_of_fault (hrun : m.halted = false)
    (h : (m.cycle random).fault = some f) :
    (m.cycle random).machine = { m with redraw := false, fault := some f } := by
  rw [fault_cycle hrun] at h
  rw [cycle_eq_of_fault hrun h, machine_execute_of_fault h]
  simp only [halt, fetched, UInt16.add_sub_cancel]

/-- A halted machine stays as it is; any other ends its cycle where the instruction does, or halts
before it. -/
theorem cycle_cases (m : Machine) (random : UInt8) :
    (m.halted = true ∧ m.cycle random = { machine := m }) ∨
    (m.halted = false ∧ (m.fetched.execute random m.instruction).fault = none ∧
      (m.cycle random).fault = none ∧
      (m.cycle random).machine = (m.fetched.execute random m.instruction).machine) ∨
    ∃ f, m.halted = false ∧ (m.fetched.execute random m.instruction).fault = some f ∧
      (m.cycle random).fault = some f ∧
      (m.cycle random).machine = { m with redraw := false, fault := some f } := by
  cases hrun : m.halted with
  | true => exact Or.inl ⟨rfl, cycle_of_halted hrun random⟩
  | false =>
    have hfault := fault_cycle hrun random
    cases hf : (m.fetched.execute random m.instruction).fault with
    | none =>
      have hmachine := congrArg Outcome.machine (cycle_eq_of_ok hrun hf)
      exact Or.inr (Or.inl ⟨rfl, rfl, hfault.trans hf, hmachine⟩)
    | some f =>
      have hcycle := hfault.trans hf
      exact Or.inr (Or.inr ⟨f, rfl, rfl, hcycle, machine_cycle_of_fault hrun hcycle⟩)

end Machine

end Chip8
