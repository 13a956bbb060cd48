import Chip8.Proofs.Encoding
import Chip8.Proofs.Loading
import Chip8.Proofs.Rows
import Chip8.Proofs.Stores

/-!
# The listing of a program and its trace

Disassembling a program and running it walk over the same bytes in different ways: one goes straight
through the program, two bytes at a time, the other goes wherever control leads, through memory that
the program may change. Wherever a run fetches bytes of the program that it has not stored to, it
executes the instruction that the listing shows for them, and logs it in the same words.

## Main definitions

* `Instruction.ignored?` — what is logged of an instruction that is ignored
* `Disassembly.Row.logged` — what is logged of a cycle, in terms of a row
* `Machine.Follows` — a cycle executes and logs the instruction of a row

## Main results

* `Machine.log_execute`, `Machine.log_cycle` — what instructions and cycles log
* `Machine.opcode_run_load` — a run finds the words of the program where it has not stored
* `Machine.cycle_follows_listing` — the cycles of a run follow the listing
-/

namespace Chip8

/-- What is logged of an instruction that is ignored. -/
def Instruction.ignored? : Instruction → Option Event
  | machineCode target => some (.ignoredMachineCode target)
  | unknown w => some (.ignoredUnknown w)
  | _ => none

/-! ### Rows -/

namespace Disassembly.Row

/-- What is logged of a row whose instruction is ignored. -/
def remarks (r : Row) : List (Log.Level × String) :=
  if r.statement.mnemonic = "SYS" then
    [(.debug, "ignoring machine code routine at 0x" ++ Hex.text 3 r.opcode.address.val)]
  else if r.statement.mnemonic = "UNK" then
    [(.debug, "ignoring unknown opcode " ++ r.opcode.text)]
  else []

/-- What is logged of a cycle at `pc` that executes the instruction of a row: the row, what there is
to remark on it, and the fault, if there is one. -/
def logged (r : Row) (pc : UInt16) (fault : Option Fault) : List (Log.Level × String) :=
  (.trace, "0x" ++ Hex.text 3 pc.toNat ++ ": " ++ r.statement.text) ::
    (r.remarks ++ fault.toList.map fun f => (.error, f.message))

theorem remarks_eq (r : Row) :
    r.remarks = r.instruction.ignored?.toList.map fun e => (e.level, e.message) := by
  rw [remarks, statement]
  cases h : r.instruction with
  | machineCode a =>
    rw [Instruction.address_of_decode_eq_machineCode h]
    rfl
  | unknown w =>
    rw [Instruction.eq_of_decode_eq_unknown h]
    rfl
  | skip c => cases c <;> rfl
  | binary op x y => cases op <;> rfl
  | shift s x => cases s <;> rfl
  | _ => rfl

end Disassembly.Row

namespace Machine

variable {m : Machine} {random : UInt8} {program : List UInt8} {now k : Nat}
  {ops : List Operation}

/-! ### What is logged -/

theorem log_execute (m : Machine) (random : UInt8) (i : Instruction) :
    (m.execute random i).log = i.ignored?.toList := by
  cases htransfers : i.transfers with
  | true =>
    have hnothing : i.ignored? = none := by
      cases i with
      | machineCode | unknown => cases htransfers
      | _ => rfl
    rw [hnothing]
    rcases transferred_execute htransfers random with ⟨f, hfail⟩ | ⟨pc, stack, hgo⟩
    · rw [hfail]
      rfl
    · rw [hgo]
      rfl
  | false =>
    cases i with
    | ret | jump | call | jumpOffset => cases htransfers
    | _ => rfl

/-- A running machine logs the instruction that it fetched, whether it was ignored, and whether it
faulted. -/
theorem log_cycle (hrun : m.halted = false) (random : UInt8) :
    (m.cycle random).log =
      .fetched m.pc m.instruction ::
        (m.instruction.ignored?.toList ++ (m.cycle random).fault.toList.map .halted) := by
  cases hf : (m.fetched.execute random m.instruction).fault with
  | none =>
    rw [cycle_eq_of_ok hrun hf, log_execute]
    exact congrArg _ (List.append_nil _).symm
  | some f =>
    rw [cycle_eq_of_fault hrun hf, log_execute]
    rfl

/-! ### What is fetched -/

theorem read_run_load (hops : ∀ op ∈ ops, op.isLoad = false) (hfits : 0x200 + k < 0x1000)
    (hkept : ¬ (m.load program now).machine.StoresDuring ⟨0x200 + k, hfits⟩ ops) :
    ((m.load program now).machine.run ops).memory.read ⟨0x200 + k, hfits⟩ = program.getD k 0 := by
  have hloads : ∀ op ∈ ops, op.isLoad = true → 0x200 + k < Layout.programStart := by
    intro op hop hload
    rw [hops op hop] at hload
    cases hload
  rw [read_run_of_not_stores hloads hkept, read_load_program]

/-- Where a run has not stored, it finds the words of the program. -/
theorem opcode_run_load (hops : ∀ op ∈ ops, op.isLoad = false)
    (hpc : ((m.load program now).machine.run ops).pc.toNat = 0x200 + 2 * k)
    (hfits : 2 * k + 1 < 0xE00)
    (hkept : ∀ a : Address, a.val = 0x200 + 2 * k ∨ a.val = 0x200 + 2 * k + 1 →
      ¬ (m.load program now).machine.StoresDuring a ops) :
    ((m.load program now).machine.run ops).opcode = Disassembly.wordAt program k := by
  have hhigh : 0x200 + 2 * k < 0x1000 := by omega
  have hlow : 0x200 + (2 * k + 1) < 0x1000 := by omega
  -- both bytes lie below the end of memory, so neither address wraps
  have hplace : Address.wrap ((m.load program now).machine.run ops).pc =
      ⟨0x200 + 2 * k, hhigh⟩ := by
    apply Fin.ext
    rw [Address.val_wrap, hpc, Nat.mod_eq_of_lt hhigh]
  have hplace' : Address.wrap (((m.load program now).machine.run ops).pc + 1) =
      ⟨0x200 + (2 * k + 1), hlow⟩ := by
    apply Fin.ext
    rw [Address.val_wrap, UInt16.toNat_add, hpc, UInt16.toNat_one]
    simp only
    omega
  rw [opcode, hplace, hplace', read_run_load hops hhigh (hkept _ (.inl rfl)),
    read_run_load hops hlow (hkept _ (.inr rfl)), Disassembly.wordAt]

/-! ### Cycles and rows -/

/-- A cycle executes the instruction of a row, and what it logs is about that row. -/
structure Follows (m : Machine) (random : UInt8) (r : Disassembly.Row) : Prop where
  instruction : m.executed? (.cycle random) = some r.instruction
  fault : (m.cycle random).fault = (m.fetched.execute random r.instruction).fault
  /-- Without a fault, the cycle ends where the instruction does. -/
  machine : (m.cycle random).fault = none →
    (m.cycle random).machine = (m.fetched.execute random r.instruction).machine
  /-- With a fault, the machine is halted where the instruction ends. -/
  halted : ∀ f, (m.cycle random).fault = some f →
    (m.cycle random).machine = (m.fetched.execute random r.instruction).machine.halt f
  log : (m.cycle random).log.map (fun e => (e.level, e.message)) =
    r.logged m.pc (m.cycle random).fault

/-- A running machine follows every row that has the instruction at its program counter. -/
theorem follows_of_instruction_eq {r : Disassembly.Row} (hrun : m.halted = false)
    (hinstruction : m.instruction = r.instruction) (random : UInt8) : m.Follows random r := by
  have hfault := fault_cycle hrun random
  refine
    { instruction := executed?_cycle_eq_some_iff.mpr ⟨hrun, hinstruction⟩
      fault := hinstruction ▸ hfault
      machine := fun hok => ?_
      halted := fun f hf => ?_
      log := ?_ }
  · rw [cycle_eq_of_ok hrun (hfault.symm.trans hok), hinstruction]
  · rw [cycle_eq_of_fault hrun (hfault.symm.trans hf), hinstruction]
  · rw [log_cycle hrun, hinstruction, Disassembly.Row.logged, r.remarks_eq, List.map_cons,
      List.map_append, List.map_map]
    rfl

/-- **A run follows the listing of its program.** Take any run after a load that loads nothing else.
On a halted machine a cycle logs nothing. On a running machine whose program counter is at an even
offset of the program, at a word that was loaded and has not been stored to since, a cycle executes
exactly the instruction of the row with that offset, and logs the row, then a remark exactly if the
row is `SYS` or `UNK`, and then the fault, exactly if there is one. -/
theorem cycle_follows_listing (m : Machine) (program : List UInt8) (now : Nat)
    (ops : List Operation) (random : UInt8) (hops : ∀ op ∈ ops, op.isLoad = false) :
    let loaded := (m.load program now).machine
    let after := loaded.run ops
    (after.halted = true → (after.cycle random).log = []) ∧
    ∀ k, after.halted = false → after.pc.toNat = 0x200 + 2 * k →
      2 * k + 1 < min program.length 0xE00 →
      (∀ a : Address, a.val = 0x200 + 2 * k ∨ a.val = 0x200 + 2 * k + 1 →
        ¬ loaded.StoresDuring a ops) →
      ∃ r, (Disassembly.rows program)[k]? = some r ∧ r.offset.toNat = 2 * k ∧
        after.Follows random r := by
  intro loaded after
  refine ⟨fun hhalted => ?_, fun k hrun hpc hinside hkept => ?_⟩
  · rw [cycle_of_halted hhalted]
  · obtain ⟨hlength, hfits⟩ := Nat.lt_min.mp hinside
    have hlisted : k < Disassembly.listed program := by
      rw [Disassembly.listed, Disassembly.maxWords]
      omega
    have hword : k < Disassembly.maxWords := Nat.lt_of_lt_of_le hlisted (Nat.min_le_right _ _)
    have hinstruction : after.instruction =
        (Disassembly.row k (Disassembly.wordAt program k)).instruction :=
      congrArg Instruction.decode (opcode_run_load hops hpc hfits hkept)
    exact ⟨_, Disassembly.getElem?_rows hlisted, Disassembly.toNat_offset_row hword _,
      follows_of_instruction_eq hrun hinstruction random⟩

/-- A program that jumps to its second word, and has done so. -/
theorem cycle_follows_listing_behind_jump :
    let program : List UInt8 := [0x12, 0x02, 0xC1, 0x0F]
    let after := ((new .standard).load program 0).machine.run [.cycle 0]
    ∃ r, (Disassembly.rows program)[1]? = some r ∧ r.offset.toNat = 2 ∧ after.Follows 9 r := by
  intro program
  have hops : ∀ op ∈ [Operation.cycle 0], op.isLoad = false := by decide
  obtain ⟨-, hfollows⟩ := cycle_follows_listing (new .standard) program 0 [.cycle 0] 9 hops
  generalize hloaded : ((new .standard).load program 0).machine = loaded at hfollows ⊢
  intro after
  have hrun : loaded.halted = false := hloaded ▸ halted_eq_false_iff.mpr (fault_load _ _ _)
  have hjump : loaded.instruction = .jump 0x202 := by
    have hdecode : Instruction.decode (.ofBytes 0x12 0x02) = .jump 0x202 := by decide
    rw [← hloaded, instruction_load]
    exact hdecode
  have hdone : loaded.fetched.execute 0 loaded.instruction =
      { machine := { loaded.fetched with pc := 0x202 } } := by
    rw [hjump]
    exact jumpTo_of_le (by decide)
  have hafter : after = { loaded.fetched with pc := 0x202 } := by
    have hok : (loaded.fetched.execute 0 loaded.instruction).fault = none := by rw [hdone]
    change loaded.run [.cycle 0] = _
    rw [run_cons, run_nil, perform, cycle_eq_of_ok hrun hok, hdone]
  have hkept : ∀ a, ¬ loaded.StoresDuring a [.cycle 0] := by
    rintro a (⟨i, hi, j, hj, -⟩ | hlater)
    · obtain ⟨-, rfl⟩ := executed?_cycle_eq_some_iff.mp hi
      rw [hjump] at hj
      exact Nat.not_lt_zero j hj
    · exact hlater
  have hpc : after.pc.toNat = 0x202 := by
    rw [hafter]
    rfl
  have hrun' : after.halted = false := by
    rw [hafter]
    exact hrun
  exact hfollows 1 hrun' hpc (by decide) fun a _ => hkept a

end Machine

end Chip8
