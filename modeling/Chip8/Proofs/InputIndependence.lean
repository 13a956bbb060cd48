import Mathlib.Data.List.Forall2
import Chip8.Proofs.Transfers

/-!
# Independence of input

What a player does with the keys and what goes on with the timers reaches a program through four
instructions only: the two skips on a key, the wait for a key, and the reading of the delay timer.
A run that executes none of them goes the same way whatever happens outside.

The proof erases the outside of a machine, its keypad, timers and clock. Events outside change
nothing else, and an instruction that reads no input does the same on the erased machine.

## Main definitions

* `Instruction.readsInput` — the four instructions that read the keypad or the timers
* `Machine.AgreeInside` — machines that differ at most in keypad, timers and clock
* `Round` — what happens outside, and then a cycle
* `Machine.starts` — the cycles of a run, with the machines and the random bytes they start from
* `Machine.executions`, `Machine.drawn`, `Machine.cycleOutcomes` — what these cycles execute, which
  random bytes they use, and what comes of them

## Main results

* `Machine.inside_run` — events outside leave the inside alone
* `Machine.inside_execute` — an instruction that reads no input does not depend on the outside
* `Machine.inside_cycle_eq` — nor does a cycle that executes such an instruction
* `Machine.AgreeInside.outcomes_agree` — machines that agree inside go through the same cycles
-/

namespace Chip8

/-- Whether an instruction reads the keypad or the timers. -/
def Instruction.readsInput : Instruction → Bool
  | .skip (.held _) | .skip (.notHeld _) | .awaitKey _ | .readDelay _ => true
  | _ => false

/-- Whether an instruction uses a random byte. -/
def Instruction.usesRandom : Instruction → Bool
  | .random .. => true
  | _ => false

/-- Whether an operation is an event outside of the machine: something is done to the keypad, the
timers or the clock. -/
def Machine.Operation.isOutside : Machine.Operation → Bool
  | .keypad _ | .timers _ | .startTimers _ | .stopTimers | .updateTimers _ => true
  | _ => false

/-- What happens outside, and then a cycle. -/
structure Round where
  events : List Machine.Operation
  /-- The byte that the cycle uses if it executes `RND`. -/
  random : UInt8
  outside : ∀ op ∈ events, op.isOutside = true

/-- Machines that differ at most in their keypads, timers and clocks. -/
structure Machine.AgreeInside (m m' : Machine) : Prop where
  options : m.options = m'.options
  memory : m.memory = m'.memory
  display : m.display = m'.display
  redraw : m.redraw = m'.redraw
  registers : m.registers = m'.registers
  index : m.index = m'.index
  pc : m.pc = m'.pc
  stack : m.stack = m'.stack
  fault : m.fault = m'.fault

/-- Outcomes on machines that agree inside, with the same fault or none, and the same log. -/
structure Outcome.AgreeInside (o o' : Outcome) : Prop where
  machine : o.machine.AgreeInside o'.machine
  fault : o.fault = o'.fault
  log : o.log = o'.log

/-- The machine with its outside erased: no key is held, and timers and clock are at rest. -/
def Machine.inside (m : Machine) : Machine :=
  { m with keypad := .released, timers := {}, clock := { frequency := 0 } }

/-- An outcome on a machine with its outside erased. -/
def Outcome.inside (o : Outcome) : Outcome := { o with machine := o.machine.inside }

theorem Machine.agreeInside_iff {m m' : Machine} :
    m.AgreeInside m' ↔ m.inside = m'.inside := by
  constructor
  · intro h
    exact Machine.ext h.options h.memory h.display h.redraw rfl h.registers h.index rfl rfl h.pc
      h.stack h.fault
  · intro h
    obtain ⟨hoptions, hmemory, hdisplay, hredraw, -, hregisters, hindex, -, -, hpc, hstack,
      hfault⟩ := Machine.ext_iff.mp h
    exact ⟨hoptions, hmemory, hdisplay, hredraw, hregisters, hindex, hpc, hstack, hfault⟩

theorem Outcome.AgreeInside.of_inside_eq {o o' : Outcome} (h : o.inside = o'.inside) :
    o.AgreeInside o' := by
  obtain ⟨hmachine, hfault, hlog⟩ := Outcome.mk.inj h
  exact ⟨Machine.agreeInside_iff.mpr hmachine, hfault, hlog⟩

namespace Machine

variable {m m' : Machine} {random random' : UInt8} {i : Instruction} {op : Operation}
  {events : List Operation} {r r' : Round} {rounds rounds' : List Round} {supply : List UInt8}

@[simp] theorem pc_inside (m : Machine) : m.inside.pc = m.pc := rfl

@[simp] theorem instruction_inside (m : Machine) : m.inside.instruction = m.instruction := rfl

@[simp] theorem executed?_inside (m : Machine) (op : Operation) :
    m.inside.executed? op = m.executed? op := by
  cases op <;> rfl

theorem halt_inside (m : Machine) (f : Fault) : (m.halt f).inside = m.inside.halt f := rfl

/-! ### Events outside -/

/-- Events outside leave the inside alone. -/
theorem inside_perform (hop : op.isOutside = true) : (m.perform op).machine.inside = m.inside := by
  cases op with
  | load | cycle | execute | setRegister | setIndex => exact Bool.noConfusion hop
  | keypad | timers | startTimers | stopTimers | updateTimers => rfl

theorem inside_run (h : ∀ op ∈ events, op.isOutside = true) :
    (m.run events).inside = m.inside :=
  run_induction_of (P := fun after => after.inside = m.inside)
    (fun _ _ hop hafter => (inside_perform hop).trans hafter) h rfl

/-! ### Instructions -/

theorem holds_inside {c : Condition} (h : (Instruction.skip c).readsInput = false) :
    c.holds m.inside = c.holds m := by
  cases c with
  | held | notHeld => exact Bool.noConfusion h
  | isByte | notByte | same | differ => rfl

theorem combine_inside (m : Machine) (op : BinaryOp) (x y : Register) :
    m.inside.combine op x y = (m.combine op x y).inside := by
  have hx : m.inside.reg x = m.reg x := rfl
  have hy : m.inside.reg y = m.reg y := rfl
  simp only [combine, hx, hy]
  cases op.flag? (m.reg x) (m.reg y) with
  | none => rfl
  | some flag => rfl

theorem inside_jumpTo (m : Machine) (target : UInt16) (stack : List UInt16) :
    (m.inside.jumpTo target stack).inside = (m.jumpTo target stack).inside := by
  rcases Nat.lt_or_ge target.toNat Layout.programStart with hlt | hle
  · rw [jumpTo_of_lt hlt, jumpTo_of_lt hlt]
    rfl
  · rw [jumpTo_of_le hle, jumpTo_of_le hle]
    rfl

theorem inside_call (m : Machine) (target : UInt16) :
    (m.inside.call target).inside = (m.call target).inside := by
  by_cases hfull : m.stack.length = Layout.stackDepth
  · have hfull' : m.inside.stack.length = Layout.stackDepth := hfull
    rw [call_of_full hfull, call_of_full hfull']
    rfl
  · have hfree' : m.inside.stack.length ≠ Layout.stackDepth := hfull
    rw [call_of_free hfull, call_of_free hfree']
    exact m.inside_jumpTo target (m.pc :: m.stack)

theorem inside_ret (m : Machine) : m.inside.ret.inside = m.ret.inside := by
  cases hstack : m.stack with
  | nil =>
    have hstack' : m.inside.stack = [] := hstack
    rw [ret_of_nil hstack, ret_of_nil hstack']
    rfl
  | cons back rest =>
    have hstack' : m.inside.stack = back :: rest := hstack
    rw [ret_of_cons hstack, ret_of_cons hstack']
    rfl

/-- An instruction that reads no input does the same on the erased machine. -/
theorem inside_execute (h : i.readsInput = false) (random : UInt8) :
    (m.inside.execute random i).inside = (m.execute random i).inside := by
  cases i with
  | awaitKey | readDelay => exact Bool.noConfusion h
  | ret => exact m.inside_ret
  | jump target => exact m.inside_jumpTo _ _
  | call target => exact m.inside_call _
  | jumpOffset base => exact m.inside_jumpTo _ _
  | skip c =>
    simp only [execute]
    rw [holds_inside h]
    cases c.holds m with
    | false => rfl
    | true => rfl
  | binary op x y =>
    simp only [execute]
    rw [combine_inside]
    rfl
  | restore x =>
    -- opened first, so that no register is looked at
    simp only [execute, restoreUpTo]
    rfl
  | _ => rfl

/-- The random byte matters to one instruction only. -/
theorem execute_random_irrelevant (h : i.usesRandom = false) (random random' : UInt8) :
    m.execute random i = m.execute random' i := by
  cases i with
  | random => exact Bool.noConfusion h
  | _ => rfl

/-! ### Cycles -/

/-- A cycle that executes no instruction that reads input does the same on the erased machine. -/
theorem inside_cycle (h : ∀ i ∈ m.executed? (.cycle random), i.readsInput = false) :
    (m.inside.cycle random).inside = (m.cycle random).inside := by
  cases hrun : m.halted with
  | true =>
    have hrun' : m.inside.halted = true := hrun
    rw [cycle_of_halted hrun, cycle_of_halted hrun']
    rfl
  | false =>
    have hrun' : m.inside.halted = false := hrun
    have hreads : m.instruction.readsInput = false :=
      h _ (executed?_cycle_eq_some_iff.mpr ⟨hrun, rfl⟩)
    have hdone : (m.inside.fetched.execute random m.instruction).inside =
        (m.fetched.execute random m.instruction).inside :=
      inside_execute (m := m.fetched) hreads random
    obtain ⟨hmachine, hfault, hlog⟩ := Outcome.mk.inj hdone
    cases hf : (m.fetched.execute random m.instruction).fault with
    | none =>
      rw [cycle_eq_of_ok hrun hf, cycle_eq_of_ok hrun' (hfault.trans hf)]
      simp only [Outcome.inside, hmachine, hlog, pc_inside, instruction_inside]
    | some f =>
      rw [cycle_eq_of_fault hrun hf, cycle_eq_of_fault hrun' (hfault.trans hf)]
      simp only [Outcome.inside, halt_inside, hmachine, hlog, pc_inside, instruction_inside]

/-- Whether a cycle would execute `RND`. -/
def drawsRandom (m : Machine) : Bool := !m.halted && m.instruction.usesRandom

@[simp] theorem drawsRandom_inside (m : Machine) : m.inside.drawsRandom = m.drawsRandom := rfl

theorem cycle_random_irrelevant (h : m.drawsRandom = false) (random random' : UInt8) :
    m.cycle random = m.cycle random' := by
  cases hrun : m.halted with
  | true => rw [cycle_of_halted hrun, cycle_of_halted hrun]
  | false =>
    have hunused : m.instruction.usesRandom = false := by
      rwa [drawsRandom, hrun] at h
    rw [cycle, cycle, execute_random_irrelevant hunused random random']

/-- Cycles that find the same inside, and the same random byte if they execute `RND`, come to the
same, unless they execute an instruction that reads input. -/
theorem inside_cycle_eq (h : m.inside = m'.inside)
    (hreads : ∀ i ∈ m.executed? (.cycle random), i.readsInput = false)
    (hrandom : m.drawsRandom = true → random = random') :
    (m.cycle random).inside = (m'.cycle random').inside := by
  have hreads' : ∀ i ∈ m'.executed? (.cycle random), i.readsInput = false := by
    rwa [← executed?_inside m', ← h, executed?_inside m]
  have hbyte : m'.cycle random = m'.cycle random' := by
    cases hdraws : m'.drawsRandom with
    | false => exact cycle_random_irrelevant hdraws random random'
    | true =>
      rw [← drawsRandom_inside m', ← h, drawsRandom_inside m] at hdraws
      rw [hrandom hdraws]
  calc (m.cycle random).inside
      = (m.inside.cycle random).inside := (inside_cycle hreads).symm
    _ = (m'.inside.cycle random).inside := by rw [h]
    _ = (m'.cycle random).inside := inside_cycle hreads'
    _ = (m'.cycle random').inside := by rw [hbyte]

/-! ### Runs -/

/-- The cycles of a run, each with the machine and the random byte it starts from. -/
def starts (m : Machine) : List Round → List (Machine × UInt8)
  | [] => []
  | r :: rounds =>
    let start := m.run r.events
    (start, r.random) :: (start.cycle r.random).machine.starts rounds

/-- What the cycles of a run come to, in order. -/
def cycleOutcomes (m : Machine) (rounds : List Round) : List Outcome :=
  (m.starts rounds).map fun s => s.1.cycle s.2

/-- The instructions that the cycles of a run execute, in order. -/
def executions (m : Machine) (rounds : List Round) : List Instruction :=
  (m.starts rounds).filterMap fun s => s.1.executed? (.cycle s.2)

/-- The random bytes that the cycles of a run use, in order. -/
def drawn (m : Machine) (rounds : List Round) : List UInt8 :=
  ((m.starts rounds).filter fun s => s.1.drawsRandom).map fun s => s.2

theorem forall_mem_executions_cons {P : Instruction → Prop} :
    (∀ i ∈ m.executions (r :: rounds), P i) ↔
      (∀ i ∈ (m.run r.events).executed? (.cycle r.random), P i) ∧
        ∀ i ∈ ((m.run r.events).cycle r.random).machine.executions rounds, P i := by
  rw [executions, starts, List.filterMap_cons]
  cases (m.run r.events).executed? (.cycle r.random) with
  | none => simp [executions]
  | some i => simp [executions]

theorem drawn_cons (m : Machine) (r : Round) (rounds : List Round) :
    m.drawn (r :: rounds) =
      if (m.run r.events).drawsRandom then
        r.random :: ((m.run r.events).cycle r.random).machine.drawn rounds
      else ((m.run r.events).cycle r.random).machine.drawn rounds := by
  rw [drawn, starts, List.filter_cons]
  split
  · rfl
  · rfl

/-- Where two runs take their random bytes from one supply and their first cycles execute the same,
these take the same byte, if they take one, and what is left is a supply for the others. -/
theorem exists_supply_of_cons (hstart : (m.run r.events).inside = (m'.run r'.events).inside)
    (h : m.drawn (r :: rounds) <+: supply) (h' : m'.drawn (r' :: rounds') <+: supply) :
    ((m.run r.events).drawsRandom = true → r.random = r'.random) ∧
    ∃ left, ((m.run r.events).cycle r.random).machine.drawn rounds <+: left ∧
      ((m'.run r'.events).cycle r'.random).machine.drawn rounds' <+: left := by
  have hsame : (m'.run r'.events).drawsRandom = (m.run r.events).drawsRandom := by
    rw [← drawsRandom_inside, ← hstart, drawsRandom_inside]
  rw [drawn_cons] at h h'
  rw [hsame] at h'
  cases hdraws : (m.run r.events).drawsRandom with
  | false =>
    rw [hdraws] at h h'
    exact ⟨Bool.noConfusion, supply, h, h'⟩
  | true =>
    rw [hdraws] at h h'
    cases supply with
    | nil => cases List.prefix_nil.mp h
    | cons b left =>
      obtain ⟨hb, hleft⟩ := List.cons_prefix_cons.mp h
      obtain ⟨hb', hleft'⟩ := List.cons_prefix_cons.mp h'
      exact ⟨fun _ => hb.trans hb'.symm, left, hleft, hleft'⟩

/-- **Input independence.** Two machines that differ at most in keypad, timers and clock go through
the same number of cycles, with anything done to keys and timers between them, and take the bytes
for `RND` in order from one supply. If the first machine executes no instruction that reads the
keypad or the timers, then after each cycle both machines agree again but for keypad, timers and
clock, and the cycle has the same result on both. -/
theorem AgreeInside.outcomes_agree (h : m.AgreeInside m')
    (hlength : rounds.length = rounds'.length) (hdrawn : m.drawn rounds <+: supply)
    (hdrawn' : m'.drawn rounds' <+: supply)
    (hreads : ∀ i ∈ m.executions rounds, i.readsInput = false) :
    List.Forall₂ Outcome.AgreeInside (m.cycleOutcomes rounds) (m'.cycleOutcomes rounds') := by
  induction rounds generalizing m m' rounds' supply with
  | nil =>
    obtain rfl := List.length_eq_zero_iff.mp hlength.symm
    exact .nil
  | cons r rounds ih =>
    cases rounds' with
    | nil => cases hlength
    | cons r' rounds' =>
      obtain ⟨hfirst, hrest⟩ := forall_mem_executions_cons.mp hreads
      -- the events outside keep the insides equal, so both cycles execute the same
      have hstart : (m.run r.events).inside = (m'.run r'.events).inside := by
        rw [inside_run r.outside, inside_run r'.outside]
        exact agreeInside_iff.mp h
      obtain ⟨hbyte, left, hleft, hleft'⟩ := exists_supply_of_cons hstart hdrawn hdrawn'
      have hcycle : Outcome.AgreeInside _ _ :=
        .of_inside_eq (inside_cycle_eq hstart hfirst hbyte)
      exact .cons hcycle (ih hcycle.machine (Nat.succ.inj hlength) hleft hleft' hrest)

/-- A machine that draws a random byte, next to the same machine with a key held and with other
things done to its timers before the cycle. -/
theorem AgreeInside.outcomes_agree_while_key_is_held :
    let m := ((new .quiet).load [0xC0, 0xFF] 0).machine
    let m' := m.run [.keypad (.press ⟨3⟩)]
    let rounds : List Round := [⟨[], 7, by decide⟩]
    let rounds' : List Round := [⟨[.timers (.setDelay 9), .startTimers 5], 7, by decide⟩]
    m.AgreeInside m' ∧ m.drawn rounds = [7] ∧ m'.drawn rounds' = [7] ∧
      List.Forall₂ Outcome.AgreeInside (m.cycleOutcomes rounds) (m'.cycleOutcomes rounds') := by
  intro m m' rounds rounds'
  have hagree : m.AgreeInside m' := agreeInside_iff.mpr rfl
  have hrun : m.halted = false := halted_eq_false_iff.mpr (fault_load _ _ _)
  have hrandom : m.instruction = .random .v0 0xFF := by
    rw [instruction_load]
    decide
  have hdraws : m.drawsRandom = true := by
    rw [drawsRandom, hrun, hrandom]
    rfl
  have hdraws' : (m'.run [.timers (.setDelay 9), .startTimers 5]).drawsRandom = true := hdraws
  have hdrawn : m.drawn rounds = [7] := (drawn_cons m _ []).trans (if_pos hdraws)
  have hdrawn' : m'.drawn rounds' = [7] := (drawn_cons m' _ []).trans (if_pos hdraws')
  have hreads : ∀ i ∈ m.executions rounds, i.readsInput = false := by
    simp [executions, starts, rounds, executed?, hrun, hrandom, Instruction.readsInput]
  have hlength : rounds.length = rounds'.length := rfl
  have hsupply : m.drawn rounds <+: [7] := hdrawn ▸ List.prefix_rfl
  have hsupply' : m'.drawn rounds' <+: [7] := hdrawn' ▸ List.prefix_rfl
  have houtcomes := hagree.outcomes_agree hlength hsupply hsupply' hreads
  exact ⟨hagree, hdrawn, hdrawn', houtcomes⟩

end Machine

end Chip8
