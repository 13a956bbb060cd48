import Chip8.Proofs.Effects

/-!
# What runs store

Two instructions store to memory, and a load fills the program area. Apart from that memory keeps
what it holds, over runs of any length, whatever else happens in them.

## Main definitions

* `Machine.Stores`, `Machine.StoresDuring` — an operation, or some operation of a run, stores to an
  address

## Main results

* `Machine.read_run_of_not_stores` — an address that a run does not store to holds what it held
-/

namespace Chip8.Machine

variable {m : Machine} {op : Operation} {ops : List Operation} {a : Address}

/-- An operation executes an instruction that stores to an address. -/
def Stores (m : Machine) (op : Operation) (a : Address) : Prop :=
  ∃ i, m.executed? op = some i ∧ m.StoresAt i a

/-- Some operation of a run stores to an address. -/
def StoresDuring (m : Machine) (a : Address) : List Operation → Prop
  | [] => False
  | op :: ops => m.Stores op a ∨ (m.perform op).machine.StoresDuring a ops

theorem read_execute_of_not_storesAt {i : Instruction} (h : ¬ m.StoresAt i a) (random : UInt8) :
    (m.execute random i).machine.memory.read a = m.memory.read a :=
  (effect_execute m random i).read_memory h

theorem read_cycle_of_not_stores {random : UInt8} (h : ¬ m.Stores (.cycle random) a) :
    (m.cycle random).machine.memory.read a = m.memory.read a := by
  rcases m.cycle_cases random with ⟨-, hcycle⟩ | ⟨hrun, -, -, hmachine⟩ | ⟨f, -, -, -, hmachine⟩
  · rw [hcycle]
  · have hexecuted : m.executed? (.cycle random) = some m.instruction :=
      executed?_cycle_eq_some_iff.mpr ⟨hrun, rfl⟩
    -- the fetch leaves `I` alone, so the instruction stores to the same places
    have hfetched : ¬ m.fetched.StoresAt m.instruction a := fun hstores =>
      h ⟨m.instruction, hexecuted, hstores⟩
    rw [hmachine, read_execute_of_not_storesAt hfetched, fetched]
  · rw [hmachine]

/-- An operation changes an address only by a store, or by a load that reaches it. -/
theorem read_perform_of_not_stores (hload : op.isLoad = true → a.val < Layout.programStart)
    (h : ¬ m.Stores op a) : (m.perform op).machine.memory.read a = m.memory.read a := by
  cases op with
  | load program now =>
    have hbelow : a.val < Layout.programStart := hload rfl
    rw [perform, memory_load, Memory.read_load, if_pos hbelow]
  | cycle random => exact read_cycle_of_not_stores h
  | execute i random => exact read_execute_of_not_storesAt (fun hstores => h ⟨i, rfl, hstores⟩) _
  | _ => rfl

/-- An address that no operation of a run stores to, and no load reaches, holds what it held. -/
theorem read_run_of_not_stores (hloads : ∀ op ∈ ops, op.isLoad = true → a.val < Layout.programStart)
    (h : ¬ m.StoresDuring a ops) : (m.run ops).memory.read a = m.memory.read a := by
  induction ops generalizing m with
  | nil => rfl
  | cons op ops ih =>
    obtain ⟨hload, hrest⟩ := List.forall_mem_cons.mp hloads
    obtain ⟨hnow, hlater⟩ := not_or.mp h
    rw [run_cons, ih hrest hlater, read_perform_of_not_stores hload hnow]

end Chip8.Machine
