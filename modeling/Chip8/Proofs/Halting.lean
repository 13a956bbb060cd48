import Chip8.Proofs.Faults

/-!
# Halted machines

A fault that a cycle meets halts the machine and is recorded. The record stays true: the word at
the program counter, the call stack and the registers are still those that brought the fault about,
so the machine would fault again in the same way if the record were erased. A front end can spoil
this only by executing an instruction of its own or by setting a register of a halted machine.

## Main definitions

* `Machine.Permits`, `Machine.Admits` — the operations and runs that cannot spoil a record
* `Machine.Faithful` — the recorded fault is what the instruction at the program counter causes

## Main results

* `Machine.faithful_run` — admitted runs keep the record faithful
* `Machine.cycle_erased` — with the record erased, a cycle brings it back
* `Machine.countP_fault_outcomes_le_one` — between two loads a machine faults at most once
* `Machine.halted_records_fault` — all of it, for the runs of a new machine
-/

namespace Chip8.Machine

variable {m m' : Machine} {random : UInt8} {f : Fault} {op : Operation} {ops : List Operation}

/-! ### Admitted runs -/

/-- An operation that cannot spoil the record of a fault: no instruction is executed without a
fetch, and registers are set only while the machine is not halted. -/
def Permits (m : Machine) : Operation → Prop
  | .execute .. => False
  | .setRegister .. => m.halted = false
  | _ => True

/-- Each operation of a run is permitted where it is done. -/
def Admits (m : Machine) : List Operation → Prop
  | [] => True
  | op :: ops => m.Permits op ∧ (m.perform op).machine.Admits ops

/-! ### The record of a fault -/

/-- The recorded fault, if there is one, is what the instruction at the program counter causes. -/
def Faithful (m : Machine) : Prop :=
  ∀ f, m.fault = some f → m.redraw = false ∧ m.fetched.Faults m.instruction f

theorem Faithful.of_fault_eq_none (h : m.fault = none) : m.Faithful := by
  intro f hf
  rw [h] at hf
  cases hf

/-- Faithfulness depends on what an instruction is fetched from and can fault by. -/
theorem Faithful.congr (h : m.Faithful) (hmemory : m'.memory = m.memory) (hpc : m'.pc = m.pc)
    (hstack : m'.stack = m.stack) (hregisters : m'.registers = m.registers)
    (hredraw : m'.redraw = m.redraw) (hfault : m'.fault = m.fault) : m'.Faithful := by
  intro f hf
  obtain ⟨hredraw', hfaults⟩ := h f (hfault.symm.trans hf)
  have hinstruction : m'.instruction = m.instruction := by
    rw [instruction, instruction, opcode, opcode, hmemory, hpc]
  have hpc' : m'.fetched.pc = m.fetched.pc := congrArg (· + 2) hpc
  refine ⟨hredraw.trans hredraw', ?_⟩
  rw [hinstruction]
  exact hfaults.congr hpc' hstack hregisters

/-- A cycle leaves a faithful machine faithful, and makes one when it halts the machine. -/
theorem Faithful.cycle (h : m.Faithful) (hdepth : m.stack.length ≤ 16) (random : UInt8) :
    (m.cycle random).machine.Faithful := by
  rcases m.cycle_cases random with
    ⟨-, hcycle⟩ | ⟨hrun, -, -, hmachine⟩ | ⟨f, hrun, hf, -, hmachine⟩
  · rw [hcycle]
    exact h
  · rw [hmachine]
    apply Faithful.of_fault_eq_none
    rw [fault_machine_execute]
    exact halted_eq_false_iff.mp hrun
  · have hdepth' : m.fetched.stack.length ≤ 16 := hdepth
    have hfaults := (fault_execute_iff hdepth').mp hf
    rw [hmachine]
    rintro _ ⟨⟩
    exact ⟨rfl, hfaults.congr rfl rfl rfl⟩

theorem Faithful.perform (h : m.Faithful) (hdepth : m.stack.length ≤ 16)
    (hpermits : m.Permits op) : (m.perform op).machine.Faithful := by
  cases op with
  | load program now => exact .of_fault_eq_none (fault_load m program now)
  | cycle random => exact h.cycle hdepth random
  | execute => exact hpermits.elim
  | setRegister r b => exact .of_fault_eq_none (halted_eq_false_iff.mp hpermits)
  | setIndex | keypad | timers | startTimers | stopTimers | updateTimers =>
    exact h.congr rfl rfl rfl rfl rfl rfl

/-- Admitted runs keep the record of a fault faithful. -/
theorem faithful_run (hm : m.Reachable) (hadmits : m.Admits ops) (h : m.Faithful) :
    (m.run ops).Faithful := by
  induction ops generalizing m with
  | nil => exact h
  | cons op ops ih =>
    obtain ⟨hpermits, hrest⟩ := hadmits
    exact ih (hm.run [op]) hrest (h.perform hm.length_stack_le hpermits)

/-- With the record erased, one cycle faults in the same way and halts the same machine again. -/
theorem cycle_erased (h : m.Faithful) (hdepth : m.stack.length ≤ 16) (hf : m.fault = some f)
    (random : UInt8) :
    ({ m with fault := none }.cycle random).fault = some f ∧
      ({ m with fault := none }.cycle random).machine = m := by
  obtain ⟨hredraw, hfaults⟩ := h f hf
  have hfault : ({ m with fault := none }.cycle random).fault = some f := by
    have hdepth' : { m with fault := none }.fetched.stack.length ≤ 16 := hdepth
    rw [fault_cycle rfl]
    exact (fault_execute_iff hdepth').mpr (hfaults.congr rfl rfl rfl)
  refine ⟨hfault, ?_⟩
  rw [machine_cycle_of_fault rfl hfault]
  -- what the fetch would change, the flag, is false in a faithful machine already
  cases m
  cases hredraw
  cases hf
  rfl

/-- A faithful record carries the address that the program counter points to. -/
theorem Faithful.pc_eq_source (h : m.Faithful) (hf : m.fault = some f) : m.pc = f.source := by
  obtain ⟨-, hfaults⟩ := h f hf
  rw [hfaults.source_eq]
  -- the fault was computed behind the fetch, two bytes further on
  exact (UInt16.add_sub_cancel _ _).symm

/-! ### After the fault -/

theorem outcomes_cycles_of_halted (h : m.halted = true) (randoms : List UInt8) :
    m.outcomes (randoms.map Operation.cycle) = randoms.map fun _ => { machine := m } := by
  induction randoms with
  | nil => rfl
  | cons random randoms ih =>
    rw [List.map_cons, outcomes_cons, perform, cycle_of_halted h, ih, List.map_cons]

theorem fault_perform_of_halted (h : m.halted = true) (hpermits : m.Permits op) :
    (m.perform op).fault = none := by
  cases op with
  | execute => exact hpermits.elim
  | cycle random => rw [perform, cycle_of_halted h]
  | _ => rfl

theorem halted_perform_of_halted (h : m.halted = true) (hpermits : m.Permits op)
    (hload : op.isLoad = false) : (m.perform op).machine.halted = true := by
  cases op with
  | load => exact Bool.noConfusion hload
  | execute => exact hpermits.elim
  | cycle random =>
    rw [perform, cycle_of_halted h]
    exact h
  | _ => exact h

theorem halted_perform_of_fault (hpermits : m.Permits op) (hf : (m.perform op).fault = some f) :
    (m.perform op).machine.halted = true := by
  cases op with
  | execute => exact hpermits.elim
  | cycle random =>
    rw [perform] at hf ⊢
    rcases m.cycle_cases random with ⟨-, hcycle⟩ | ⟨-, -, hok, -⟩ | ⟨f', -, -, -, hmachine⟩
    · rw [hcycle] at hf
      cases hf
    · rw [hok] at hf
      cases hf
    · rw [hmachine]
      rfl
  | _ => cases hf

theorem countP_fault_outcomes_of_halted (h : m.halted = true) (hadmits : m.Admits ops)
    (hloads : ∀ op ∈ ops, op.isLoad = false) :
    (m.outcomes ops).countP (·.fault.isSome) = 0 := by
  induction ops generalizing m with
  | nil => rfl
  | cons op ops ih =>
    obtain ⟨hpermits, hrest⟩ := hadmits
    obtain ⟨hload, hloads'⟩ := List.forall_mem_cons.mp hloads
    have hfault := fault_perform_of_halted h hpermits
    rw [outcomes_cons, List.countP_cons_of_neg (by rw [hfault]; exact Bool.noConfusion)]
    exact ih (halted_perform_of_halted h hpermits hload) hrest hloads'

/-- Between two loads an admitted run faults at most once. -/
theorem countP_fault_outcomes_le_one (hadmits : m.Admits ops)
    (hloads : ∀ op ∈ ops, op.isLoad = false) :
    (m.outcomes ops).countP (·.fault.isSome) ≤ 1 := by
  induction ops generalizing m with
  | nil => exact Nat.zero_le 1
  | cons op ops ih =>
    obtain ⟨hpermits, hrest⟩ := hadmits
    obtain ⟨-, hloads'⟩ := List.forall_mem_cons.mp hloads
    rw [outcomes_cons]
    cases hf : (m.perform op).fault with
    | none =>
      rw [List.countP_cons_of_neg (by rw [hf]; exact Bool.noConfusion)]
      exact ih hrest hloads'
    | some f =>
      rw [List.countP_cons_of_pos (by rw [hf]; rfl),
        countP_fault_outcomes_of_halted (halted_perform_of_fault hpermits hf) hrest hloads']

/-- **A halted machine is a faithful record of its fault.** On every admitted run of a new machine:
when a fault is recorded, the program counter is at the address that the fault carries, cycles
succeed without a trace, and with the record erased a cycle would fault in the same way and end in
the same machine. Between two loads at most one operation faults, and a load ends the halt. -/
theorem halted_records_fault {options : Options} (hadmits : (new options).Admits ops) :
    let m := (new options).run ops
    (∀ f, m.fault = some f →
      m.pc = f.source ∧ m.redraw = false ∧
      (∀ randoms : List UInt8,
        m.outcomes (randoms.map Operation.cycle) = randoms.map fun _ => { machine := m }) ∧
      ∀ random, ({ m with fault := none }.cycle random).fault = some f ∧
        ({ m with fault := none }.cycle random).machine = m) ∧
    (∀ rest, m.Admits rest → (∀ op ∈ rest, op.isLoad = false) →
      (m.outcomes rest).countP (·.fault.isSome) ≤ 1) ∧
    ∀ program now, (m.load program now).machine.halted = false := by
  intro m
  have hreachable : m.Reachable := (Reachable.of_new options).run ops
  have hfaithful : m.Faithful :=
    faithful_run (Reachable.of_new options) hadmits (.of_fault_eq_none rfl)
  refine ⟨fun f hf => ?_, fun rest hrest hloads => countP_fault_outcomes_le_one hrest hloads,
    fun program now => halted_eq_false_iff.mpr (fault_load m program now)⟩
  exact ⟨hfaithful.pc_eq_source hf, (hfaithful f hf).1,
    outcomes_cycles_of_halted (halted_of_fault hf),
    cycle_erased hfaithful hreachable.length_stack_le hf⟩

/-- The record of a program that is a single return, after `I` and a key have changed. -/
theorem halted_records_fault_of_lone_return :
    let load : Operation := .load [0x00, 0xEE] 0
    let rest : List Operation :=
      [.setRegister .v0 7, .cycle 0, .setIndex 0x123, .keypad (.press ⟨5⟩)]
    let m := (new .quiet).run (load :: rest)
    (new .quiet).Admits (load :: rest) ∧ m.fault = some (.stackUnderflow 0x200) ∧
      m.pc = 0x200 ∧
      ∀ random, ({ m with fault := none }.cycle random).fault = some (.stackUnderflow 0x200) := by
  intro load rest m
  have hadmits : (new .quiet).Admits (load :: rest) :=
    ⟨trivial, rfl, trivial, trivial, trivial, trivial⟩
  -- stated for any machine, so that no memory has to be evaluated
  have hrest : ∀ fresh : Machine, fresh.fault = none → fresh.stack = [] → fresh.pc = 0x200 →
      fresh.instruction = .ret → (fresh.run rest).fault = some (.stackUnderflow 0x200) := by
    intro fresh hrun hstack hpc hret
    have hrun' : (fresh.setReg .v0 7).halted = false := halted_eq_false_iff.mpr hrun
    have hret' : (fresh.setReg .v0 7).instruction = .ret := hret
    have hstack' : (fresh.setReg .v0 7).fetched.stack = [] := hstack
    have hpc' : (fresh.setReg .v0 7).fetched.source = 0x200 :=
      (UInt16.add_sub_cancel _ _).trans hpc
    have hcycle : ((fresh.setReg .v0 7).cycle 0).fault = some (.stackUnderflow 0x200) := by
      rw [fault_cycle hrun', hret', execute, ret_of_nil hstack', fail, hpc']
    simp only [rest, run_cons, run_nil, perform]
    rw [machine_cycle_of_fault hrun' hcycle]
  have hfault : m.fault = some (.stackUnderflow 0x200) := by
    have hret : ((new .quiet).load [0x00, 0xEE] 0).machine.instruction = .ret := by
      rw [instruction_load]
      decide
    change ((new .quiet).run (load :: rest)).fault = _
    rw [run_cons]
    exact hrest _ (fault_load _ _ _) (stack_load _ _ _) (pc_load _ _ _) hret
  obtain ⟨hrecord, -, -⟩ := halted_records_fault hadmits
  obtain ⟨hpc, -, -, herased⟩ := hrecord _ hfault
  exact ⟨hadmits, hfault, hpc, fun random => (herased random).1⟩

end Chip8.Machine
