import Chip8.Machine.Operation

/-!
# Runs

A run is a list of operations, one done after the other. This file says which machines runs can
bring about, what a run shows on its way, and which instruction an operation executes. Invariants
of the machine are proved for one operation and carried over to runs here.

## Main definitions

* `Machine.Reachable` — the machines that some run from a new machine ends in
* `Machine.outcomes` — the outcomes of the operations of a run, in order
* `Machine.executed?` — the instruction that an operation executes
* `Machine.behind` — the program counter as that instruction finds it

## Main results

* `Machine.Reachable.invariant` — what a new machine has and every operation keeps is had by all
  reachable machines
* `Machine.cycle_eq_of_ok`, `Machine.cycle_eq_of_fault` — a cycle in terms of the instruction it
  executes
-/

namespace Chip8

namespace Machine

/-- Whether an operation loads a program. -/
def Operation.isLoad : Operation → Bool
  | .load .. => true
  | _ => false

/-- Whether an operation executes an instruction without fetching it. -/
def Operation.isExecute : Operation → Bool
  | .execute .. => true
  | _ => false

variable {m : Machine} {random : UInt8} {f : Fault} {ops : List Operation}

/-! ### Reachable machines -/

/-- Some run from a new machine ends in this one. -/
def Reachable (m : Machine) : Prop :=
  ∃ options ops, (new options).run ops = m

theorem Reachable.of_new (options : Options) : (new options).Reachable :=
  ⟨options, [], rfl⟩

theorem Reachable.run (h : m.Reachable) (ops : List Operation) : (m.run ops).Reachable := by
  obtain ⟨options, before, rfl⟩ := h
  exact ⟨options, before ++ ops, run_append _ _ _⟩

/-- What operations of one kind keep is kept by a run of such operations. -/
theorem run_induction_of {P : Machine → Prop} {K : Operation → Prop}
    (step : ∀ m op, K op → P m → P (m.perform op).machine) (hops : ∀ op ∈ ops, K op)
    (h : P m) : P (m.run ops) := by
  induction ops generalizing m with
  | nil => exact h
  | cons op ops ih =>
    obtain ⟨hop, hrest⟩ := List.forall_mem_cons.mp hops
    exact ih hrest (step m op hop h)

/-- What every operation keeps is kept by a run. -/
theorem run_induction {P : Machine → Prop}
    (step : ∀ m op, P m → P (m.perform op).machine) (ops : List Operation) (h : P m) :
    P (m.run ops) :=
  run_induction_of (K := fun _ => True) (fun m op _ => step m op) (fun _ _ => trivial) h

/-- A property of new machines that every operation keeps is a property of all reachable ones. -/
theorem Reachable.invariant {P : Machine → Prop} (init : ∀ options, P (new options))
    (step : ∀ m op, P m → P (m.perform op).machine) (h : m.Reachable) : P m := by
  obtain ⟨options, ops, rfl⟩ := h
  exact run_induction step ops (init options)

/-! ### What a run shows -/

/-- The outcomes of operations done one after the other. -/
def outcomes (m : Machine) : List Operation → List Outcome
  | [] => []
  | op :: ops => m.perform op :: (m.perform op).machine.outcomes ops

@[simp] theorem outcomes_nil (m : Machine) : m.outcomes [] = [] := rfl

@[simp] theorem outcomes_cons (m : Machine) (op : Operation) (ops : List Operation) :
    m.outcomes (op :: ops) = m.perform op :: (m.perform op).machine.outcomes ops := rfl

/-! ### Loads -/

theorem started_eq (m : Machine) (start : Bool) (now : Nat) :
    (if start then m.startTimers now else m) =
      { m with
        timers := { m.timers with running := start || m.timers.running }
        clock := if start then m.clock.start now else m.clock } := by
  cases start with
  | true => rfl
  | false => rfl

/-- A load is a reset after which the timers and the clock may have been started. -/
theorem machine_load_eq (m : Machine) (program : List UInt8) (now : Nat) :
    (m.load program now).machine =
      { m.reset program with
        timers :=
          { delay := 0, sound := 0, running := m.options.enableTimer || m.timers.running }
        clock := if m.options.enableTimer then m.clock.start now else m.clock } := by
  have htimers : (m.reset program).timers = m.timers.reset := by rw [reset]
  have hclock : (m.reset program).clock = m.clock := by rw [reset]
  have hstarted := started_eq (m.reset program) m.options.enableTimer now
  rw [htimers, hclock] at hstarted
  exact hstarted

theorem stack_load (m : Machine) (program : List UInt8) (now : Nat) :
    (m.load program now).machine.stack = [] := by
  rw [machine_load_eq, reset]

theorem fault_load (m : Machine) (program : List UInt8) (now : Nat) :
    (m.load program now).machine.fault = none := by
  rw [machine_load_eq, reset]

theorem pc_load (m : Machine) (program : List UInt8) (now : Nat) :
    (m.load program now).machine.pc = 0x200 := by
  rw [machine_load_eq, reset]
  rfl

theorem memory_load (m : Machine) (program : List UInt8) (now : Nat) :
    (m.load program now).machine.memory = m.memory.load program := by
  rw [machine_load_eq, reset]

theorem display_load (m : Machine) (program : List UInt8) (now : Nat) :
    (m.load program now).machine.display = .blank := by
  rw [machine_load_eq, reset]

/-- After a load the first instruction is made of the first two bytes of the program. -/
theorem instruction_load (m : Machine) (program : List UInt8) (now : Nat) :
    (m.load program now).machine.instruction =
      .decode (.ofBytes (program.getD 0 0) (program.getD 1 0)) := by
  rw [instruction, opcode, pc_load, memory_load, Memory.read_load, Memory.read_load]
  rfl

/-! ### The instruction of an operation -/

/-- The instruction that an operation executes, if it executes one. -/
def executed? (m : Machine) : Operation → Option Instruction
  | .cycle _ => if m.halted then none else some m.instruction
  | .execute i _ => some i
  | _ => none

/-- The program counter as the instruction of an operation finds it: a cycle has moved it behind
the word that it fetched. -/
def behind (m : Machine) : Operation → UInt16
  | .cycle _ => m.pc + 2
  | _ => m.pc

theorem halted_eq_false_iff : m.halted = false ↔ m.fault = none := by
  rw [halted, Option.isSome_eq_false_iff, Option.isNone_iff_eq_none]

theorem executed?_cycle_eq_some_iff {i : Instruction} :
    m.executed? (.cycle random) = some i ↔ m.halted = false ∧ m.instruction = i := by
  rw [executed?]
  cases m.halted with
  | true => simp only [if_true, reduceCtorEq, Bool.true_eq_false, false_and]
  | false => simp only [Bool.false_eq_true, if_false, Option.some.injEq, true_and]

theorem halted_of_fault (h : m.fault = some f) : m.halted = true := by
  rw [halted, h, Option.isSome_some]

/-- A cycle whose instruction does not fault ends where the instruction does. -/
theorem cycle_eq_of_ok (hrun : m.halted = false)
    (hok : (m.fetched.execute random m.instruction).fault = none) :
    m.cycle random =
      { machine := (m.fetched.execute random m.instruction).machine
        log := .fetched m.pc m.instruction :: (m.fetched.execute random m.instruction).log } := by
  simp [cycle, hrun, hok]

/-- A cycle whose instruction faults halts where the instruction ends. -/
theorem cycle_eq_of_fault (hrun : m.halted = false)
    (hf : (m.fetched.execute random m.instruction).fault = some f) :
    m.cycle random =
      { machine := (m.fetched.execute random m.instruction).machine.halt f
        fault := some f
        log := .fetched m.pc m.instruction ::
          ((m.fetched.execute random m.instruction).log ++ [.halted f]) } := by
  simp [cycle, hrun, hf]

/-- A cycle of a running machine faults exactly as its instruction does. -/
theorem fault_cycle (hrun : m.halted = false) (random : UInt8) :
    (m.cycle random).fault = (m.fetched.execute random m.instruction).fault := by
  cases hf : (m.fetched.execute random m.instruction).fault with
  | none => rw [cycle_eq_of_ok hrun hf]
  | some f => rw [cycle_eq_of_fault hrun hf]

end Machine

end Chip8
