import Chip8.Proofs.InputIndependence
import Chip8.Proofs.Successors

/-!
# Waiting for a key

A machine that waits for a key has no state of its own for it: each cycle executes the instruction
and, if no key is held, moves the program counter back onto it. However many cycles go by like that,
and whatever is done to the keys and the timers between them, nothing else changes; a press that is
released again before the next cycle goes unnoticed. The first cycle that finds a key held puts the
lowest one into the register and goes on.

So the cycles spent waiting can be left out of a run, which then consists of what happened outside
alone. The induction over the run takes that as its invariant.

## Main definitions

* `Machine.Waiting` — the next cycle executes a wait for a key
* `Machine.Unheard` — no cycle of a run finds a key held

## Main results

* `Machine.cycle_of_idle`, `Machine.cycle_of_first?` — a cycle of a waiting machine
* `Machine.run_waiting` — cycles spent waiting can be left out
* `Machine.cycle_of_held` — the key that ends the wait
* `Machine.wait_loses_nothing` — all of it, with the skips on the key that was found
-/

namespace Chip8.Machine

/-- Whether an operation runs a cycle. -/
def Operation.isCycle : Operation → Bool
  | .cycle _ => true
  | _ => false

/-- Whether an operation is a press or a release. -/
def Operation.isKeypad : Operation → Bool
  | .keypad _ => true
  | _ => false

variable {m : Machine} {x : Register} {k : Key} {random : UInt8} {op : Operation}
  {ops events : List Operation}

/-- The next cycle executes a wait for a key. -/
structure Waiting (m : Machine) (x : Register) : Prop where
  running : m.halted = false
  instruction : m.instruction = .awaitKey x

/-- No cycle of a run finds a key held when it starts. -/
def Unheard (m : Machine) (ops : List Operation) : Prop :=
  ∀ done random rest, ops = done ++ .cycle random :: rest →
    ∀ k, (m.run done).keypad.isHeld k = false

theorem unheard_nil : m.Unheard [] :=
  fun _ _ _ h => absurd h.symm (List.append_ne_nil_of_right_ne_nil _ (List.cons_ne_nil _ _))

theorem unheard_cons :
    m.Unheard (op :: ops) ↔
      (op.isCycle = true → ∀ k, m.keypad.isHeld k = false) ∧
        (m.perform op).machine.Unheard ops := by
  constructor
  · intro h
    refine ⟨fun hop => ?_, fun done random rest hops => ?_⟩
    · cases op with
      | cycle random => exact h [] random ops rfl
      | _ => exact Bool.noConfusion hop
    · exact h (op :: done) random rest (congrArg (op :: ·) hops)
  · rintro ⟨hfirst, hrest⟩ done random rest hops
    cases done with
    | nil =>
      obtain ⟨rfl, -⟩ := List.cons_eq_cons.mp hops
      exact hfirst rfl
    | cons first done =>
      obtain ⟨rfl, hops'⟩ := List.cons_eq_cons.mp hops
      exact hrest done random rest hops'

/-! ### Cycles of a waiting machine -/

/-- While no key is held, a cycle of a waiting machine changes the redraw flag at most. -/
theorem cycle_of_idle (hwait : m.Waiting x) (hidle : ∀ k, m.keypad.isHeld k = false)
    (random : UInt8) :
    m.cycle random =
      { machine := { m with redraw := false }, log := [.fetched m.pc (.awaitKey x)] } := by
  have hnone : m.fetched.keypad.first? = none := Keypad.first?_eq_none_iff.mpr hidle
  have hexecute : m.fetched.execute random m.instruction =
      { machine := { m with redraw := false } } := by
    simp only [hwait.instruction, execute, awaitKey, hnone]
    simp only [fetched, UInt16.add_sub_cancel]
  rw [cycle_eq_of_ok hwait.running (by rw [hexecute]), hexecute, hwait.instruction]

/-- The lowest key held ends the wait. -/
theorem cycle_of_first? (hwait : m.Waiting x) (hfirst : m.keypad.first? = some k)
    (random : UInt8) :
    m.cycle random =
      { machine :=
          { m with registers := m.registers.set x k.toByte, pc := m.pc + 2, redraw := false }
        log := [.fetched m.pc (.awaitKey x)] } := by
  have hfirst' : m.fetched.keypad.first? = some k := hfirst
  have hexecute : m.fetched.execute random m.instruction =
      { machine := m.fetched.setReg x k.toByte } := by
    simp only [hwait.instruction, execute, awaitKey, hfirst']
  rw [cycle_eq_of_ok hwait.running (by rw [hexecute]), hexecute, hwait.instruction]
  rfl

/-! ### Events outside -/

theorem Waiting.perform (hwait : m.Waiting x) (hop : op.isOutside = true) :
    (m.perform op).machine.Waiting x := by
  cases op with
  | load | cycle | execute | setRegister | setIndex => exact Bool.noConfusion hop
  | keypad | timers | startTimers | stopTimers | updateTimers =>
    exact ⟨hwait.running, hwait.instruction⟩

theorem fault_perform_of_outside (hop : op.isOutside = true) : (m.perform op).fault = none := by
  cases op with
  | load | cycle | execute | setRegister | setIndex => exact Bool.noConfusion hop
  | keypad | timers | startTimers | stopTimers | updateTimers => rfl

/-- The redraw flag makes no difference to events outside. -/
theorem run_outside_redraw (h : ∀ op ∈ events, op.isOutside = true) (redraw : Bool) :
    { m with redraw := redraw }.run events = { m.run events with redraw := redraw } := by
  induction events generalizing m with
  | nil => rfl
  | cons op events ih =>
    obtain ⟨hop, hevents⟩ := List.forall_mem_cons.mp h
    have hstep : ({ m with redraw := redraw }.perform op).machine =
        { (m.perform op).machine with redraw := redraw } := by
      cases op with
      | load | cycle | execute | setRegister | setIndex => exact Bool.noConfusion hop
      | keypad | timers | startTimers | stopTimers | updateTimers => rfl
    rw [run_cons, hstep, ih hevents, run_cons]

theorem redraw_perform_of_outside (hop : op.isOutside = true) :
    (m.perform op).machine.redraw = m.redraw :=
  (agreeInside_iff.mpr (inside_perform hop)).redraw

theorem isCycle_of_outside (hop : op.isOutside = true) : op.isCycle = false := by
  cases op with
  | cycle => exact Bool.noConfusion hop
  | _ => rfl

/-! ### Runs of a waiting machine -/

theorem Waiting.congr_redraw (hwait : m.Waiting x) (redraw : Bool) :
    { m with redraw := redraw }.Waiting x :=
  ⟨hwait.running, hwait.instruction⟩

/-- Cycles spent waiting can be left out of a run, but for the redraw flag. -/
theorem run_waiting (hwait : m.Waiting x)
    (hops : ∀ op ∈ ops, op.isCycle = true ∨ op.isOutside = true) (hunheard : m.Unheard ops) :
    m.run ops =
      { m.run (ops.filter Operation.isOutside) with
        redraw := m.redraw && !ops.any Operation.isCycle } := by
  induction ops generalizing m with
  | nil =>
    rw [List.filter_nil, List.any_nil, Bool.not_false, Bool.and_true]
    rfl
  | cons op ops ih =>
    obtain ⟨hop, hops'⟩ := List.forall_mem_cons.mp hops
    obtain ⟨hidle, hunheard'⟩ := unheard_cons.mp hunheard
    rcases hop with hcycle | houtside
    · cases op with
      | cycle random =>
        have hperform : (m.perform (.cycle random)).machine = { m with redraw := false } :=
          congrArg Outcome.machine (cycle_of_idle hwait (hidle hcycle) random)
        have hevents : ∀ op ∈ ops.filter Operation.isOutside, op.isOutside = true :=
          fun op hmem => (List.mem_filter.mp hmem).2
        -- the cycle clears the flag, and the rest of the run hands it on as it is
        rw [hperform] at hunheard'
        rw [run_cons, hperform, ih (hwait.congr_redraw false) hops' hunheard',
          run_outside_redraw hevents, List.filter_cons_of_neg Bool.false_ne_true, List.any_cons,
          hcycle, Bool.true_or, Bool.not_true, Bool.and_false, Bool.false_and]
      | _ => exact Bool.noConfusion hcycle
    · rw [run_cons, ih (hwait.perform houtside) hops' hunheard',
        List.filter_cons_of_pos houtside, run_cons, redraw_perform_of_outside houtside,
        List.any_cons, isCycle_of_outside houtside, Bool.false_or]

/-- What may happen during a wait does not fault, and leaves the machine waiting. -/
theorem Waiting.step (hwait : m.Waiting x) (hop : op.isCycle = true ∨ op.isOutside = true)
    (hidle : op.isCycle = true → ∀ k, m.keypad.isHeld k = false) :
    (m.perform op).fault = none ∧ (m.perform op).machine.Waiting x := by
  rcases hop with hcycle | houtside
  · cases op with
    | cycle random =>
      rw [Machine.perform, cycle_of_idle hwait (hidle hcycle)]
      exact ⟨rfl, hwait.congr_redraw false⟩
    | _ => exact Bool.noConfusion hcycle
  · exact ⟨fault_perform_of_outside houtside, hwait.perform houtside⟩

/-- No cycle of a wait faults, and after it the machine still waits. -/
theorem Waiting.run (hwait : m.Waiting x)
    (hops : ∀ op ∈ ops, op.isCycle = true ∨ op.isOutside = true) (hunheard : m.Unheard ops) :
    (∀ o ∈ m.outcomes ops, o.fault = none) ∧ (m.run ops).Waiting x := by
  induction ops generalizing m with
  | nil => exact ⟨fun o ho => absurd ho List.not_mem_nil, hwait⟩
  | cons op ops ih =>
    obtain ⟨hop, hops'⟩ := List.forall_mem_cons.mp hops
    obtain ⟨hidle, hunheard'⟩ := unheard_cons.mp hunheard
    obtain ⟨hok, hwait'⟩ := hwait.step hop hidle
    obtain ⟨hoks, hstill⟩ := ih hwait' hops' hunheard'
    exact ⟨List.forall_mem_cons.mpr ⟨hok, hoks⟩, hstill⟩

/-- A wait changes the keypad, the timers, the clock and the redraw flag at most. -/
theorem run_waiting_eq (hwait : m.Waiting x)
    (hops : ∀ op ∈ ops, op.isCycle = true ∨ op.isOutside = true) (hunheard : m.Unheard ops) :
    let still := m.run ops
    still =
      { m with
        keypad := still.keypad
        timers := still.timers
        clock := still.clock
        redraw := still.redraw } := by
  have hevents : ∀ op ∈ ops.filter Operation.isOutside, op.isOutside = true :=
    fun op hop => (List.mem_filter.mp hop).2
  have hagree := agreeInside_iff.mpr (inside_run (m := m) hevents)
  rw [run_waiting hwait hops hunheard]
  exact Machine.ext hagree.options hagree.memory hagree.display rfl rfl hagree.registers
    hagree.index rfl rfl hagree.pc hagree.stack hagree.fault

/-! ### The key that was found -/

/-- The first cycle that finds a key held takes the lowest one and goes on. -/
theorem cycle_of_held (hwait : m.Waiting x) (hheld : ∃ k, m.keypad.isHeld k = true)
    (random : UInt8) :
    let got := m.cycle random
    got.fault = none ∧
    ∃ k, m.keypad.isHeld k = true ∧ (∀ j, m.keypad.isHeld j = true → k.code ≤ j.code) ∧
      (got.machine.reg x).toNat = k.code.val ∧
      got.machine =
        { m with registers := m.registers.set x k.toByte, pc := m.pc + 2, redraw := false } := by
  intro got
  have hsome : m.keypad.first? ≠ none := by
    intro hnone
    obtain ⟨j, hj⟩ := hheld
    rw [Keypad.first?_eq_none_iff.mp hnone j] at hj
    cases hj
  obtain ⟨k, hfirst⟩ := Option.ne_none_iff_exists'.mp hsome
  obtain ⟨hk, hlowest⟩ := Keypad.first?_eq_some_iff.mp hfirst
  have hgot : got = _ := cycle_of_first? hwait hfirst random
  rw [hgot]
  refine ⟨rfl, k, hk, hlowest, ?_, rfl⟩
  rw [reg, Registers.get_set_same, Key.toNat_toByte]

theorem keypad_run_of_not_keypad
    (h : ∀ op ∈ events, op.isOutside = true ∧ op.isKeypad = false) :
    (m.run events).keypad = m.keypad := by
  refine run_induction_of (P := fun after => after.keypad = m.keypad) ?_ h rfl
  rintro after op ⟨houtside, hkeypad⟩ hafter
  cases op with
  | load | cycle | execute | setRegister | setIndex => exact Bool.noConfusion houtside
  | keypad => exact Bool.noConfusion hkeypad
  | timers | startTimers | stopTimers | updateTimers => exact hafter

/-- A register goes on naming a held key while only the timers are used. -/
theorem NamesHeldKey.run (hnames : m.NamesHeldKey x)
    (h : ∀ op ∈ events, op.isOutside = true ∧ op.isKeypad = false) :
    (m.run events).NamesHeldKey x := by
  have hagree : (m.run events).AgreeInside m :=
    agreeInside_iff.mpr (inside_run fun op hop => (h op hop).1)
  obtain ⟨k, hcode, hheld⟩ := hnames
  refine ⟨k, ?_, ?_⟩
  · rw [reg, hagree.registers]
    exact hcode
  · rw [keypad_run_of_not_keypad h]
    exact hheld

/-- A cycle that executes a skip goes on behind the next word, or the one after it. -/
theorem pc_cycle_skip {c : Condition} (hrun : m.halted = false) (hskip : m.instruction = .skip c)
    (random : UInt8) :
    (m.cycle random).machine.pc = if c.holds m then m.pc + 4 else m.pc + 2 := by
  have hok : (m.fetched.execute random m.instruction).fault = none := by
    rw [hskip]
    rfl
  have hholds : c.holds m.fetched = c.holds m := by
    cases c with
    | _ => rfl
  have hfar : m.fetched.pc + 2 = m.pc + 4 := UInt16.add_assoc m.pc 2 2
  rw [cycle_eq_of_ok hrun hok, hskip, pc_execute_skip, hholds, hfar, fetched]

/-- Both kinds of skips on a register, executed on their own or by a cycle, find a key held. -/
structure SkipsHeld (m : Machine) (x : Register) : Prop where
  held : ∀ random, (m.execute random (.skip (.held x))).machine = m.skipNext
  notHeld : ∀ random, (m.execute random (.skip (.notHeld x))).machine = m
  cycle_held : m.instruction = .skip (.held x) →
    ∀ random, (m.cycle random).machine.pc = m.pc + 4
  cycle_notHeld : m.instruction = .skip (.notHeld x) →
    ∀ random, (m.cycle random).machine.pc = m.pc + 2

theorem NamesHeldKey.skipsHeld (hnames : m.NamesHeldKey x) (hrun : m.halted = false) :
    m.SkipsHeld x := by
  have hheld : (Condition.held x).holds m = true := Condition.holds_iff_met.mpr hnames
  have hnotHeld : (Condition.notHeld x).holds m = false := by
    rw [← Bool.not_eq_true, Condition.holds_iff_met]
    exact not_not_intro hnames
  refine
    { held := fun random => ?_
      notHeld := fun random => ?_
      cycle_held := fun hskip random => ?_
      cycle_notHeld := fun hskip random => ?_ }
  · rw [execute, if_pos hheld]
  · rw [execute, hnotHeld]
    rfl
  · rw [pc_cycle_skip hrun hskip, if_pos hheld]
  · rw [pc_cycle_skip hrun hskip, hnotHeld]
    rfl

/-- **Waiting for a key loses and changes nothing.** As long as no cycle finds a key held, whatever
is done to the keys and the timers, no cycle of a waiting machine faults; the run is what happened
outside alone, with the redraw flag cleared if there was a cycle; and nothing changes but the
keypad, the timers, their clock and that flag, so that the program counter stays on the wait. The
first cycle that finds a key held puts the lowest one into the register and goes on behind the wait,
with no other change. Until the keys are used again, a skip if the key in that register is held
skips, and a skip if it is not held does not. -/
theorem wait_loses_nothing (hwait : m.Waiting x)
    (hops : ∀ op ∈ ops, op.isCycle = true ∨ op.isOutside = true) (hunheard : m.Unheard ops) :
    let events := ops.filter Operation.isOutside
    let still := m.run ops
    (∀ o ∈ m.outcomes ops, o.fault = none) ∧
    still = { m.run events with redraw := m.redraw && !ops.any Operation.isCycle } ∧
    still =
      { m with
        keypad := still.keypad
        timers := still.timers
        clock := still.clock
        redraw := still.redraw } ∧
    ∀ random, (∃ k, still.keypad.isHeld k = true) →
      let got := still.cycle random
      got.fault = none ∧
      (∃ k, still.keypad.isHeld k = true ∧
        (∀ j, still.keypad.isHeld j = true → k.code ≤ j.code) ∧
        (got.machine.reg x).toNat = k.code.val ∧
        got.machine =
          { still with
            registers := still.registers.set x k.toByte
            pc := still.pc + 2
            redraw := false }) ∧
      ∀ between : List Operation,
        (∀ op ∈ between, op.isOutside = true ∧ op.isKeypad = false) →
          (got.machine.run between).SkipsHeld x := by
  intro events still
  obtain ⟨hoks, hstill⟩ := hwait.run hops hunheard
  refine ⟨hoks, run_waiting hwait hops hunheard, run_waiting_eq hwait hops hunheard, ?_⟩
  intro random hheld got
  obtain ⟨hok, k, hk, hlowest, hreg, hmachine⟩ := cycle_of_held hstill hheld random
  refine ⟨hok, ⟨k, hk, hlowest, hreg, hmachine⟩, fun between hbetween => ?_⟩
  have hkeypad : got.machine.keypad = still.keypad := by rw [hmachine]
  have hnames : got.machine.NamesHeldKey x := ⟨k, hreg, hkeypad ▸ hk⟩
  -- what happens in between leaves the inside of the machine alone, the fault included
  have hrunning : (got.machine.run between).halted = false := by
    have hagree : (got.machine.run between).AgreeInside got.machine :=
      agreeInside_iff.mpr (inside_run fun op hop => (hbetween op hop).1)
    rw [halted, hagree.fault, hmachine]
    exact hstill.running
  exact (hnames.run hbetween).skipsHeld hrunning

/-- A wait whose two bytes lie around the end of memory, with a press that no cycle sees. -/
theorem wait_loses_nothing_around_end :
    let memory := (Memory.initial.write (.wrap 0xFFFF) 0xF3).write (.wrap 0) 0x0A
    let m := { new .standard with memory := memory, pc := 0xFFFF }
    let ops := [.cycle 0, .keypad (.press ⟨7⟩), .keypad (.release ⟨7⟩), .timers .tick, .cycle 0,
      .keypad (.press ⟨12⟩), .keypad (.press ⟨7⟩)]
    m.Waiting ⟨3⟩ ∧ m.Unheard ops ∧ (m.run ops).pc = 0xFFFF ∧
      (((m.run ops).cycle 0).machine.reg ⟨3⟩).toNat = 7 ∧
      ((m.run ops).cycle 0).machine.pc = 1 ∧
      (((m.run ops).cycle 0).machine.run [.timers .tick]).SkipsHeld ⟨3⟩ := by
  intro memory m ops
  have hhigh : m.memory.read (.wrap m.pc) = 0xF3 := by
    have hother : Address.wrap 0xFFFF ≠ .wrap 0 := by decide
    exact (Memory.read_write_of_ne _ _ hother).trans (Memory.read_write_same _ _ _)
  have hend : m.pc + 1 = 0 := by decide
  have hlow : m.memory.read (.wrap (m.pc + 1)) = 0x0A := by
    rw [hend]
    exact Memory.read_write_same _ _ _
  have hwait : m.Waiting ⟨3⟩ := by
    refine ⟨rfl, ?_⟩
    rw [instruction, opcode, hhigh, hlow]
    decide
  have hidle : ∀ k, m.keypad.isHeld k = false := Keypad.isHeld_released
  have hcycle : (m.perform (.cycle 0)).machine = m :=
    congrArg Outcome.machine (cycle_of_idle hwait hidle 0)
  have hkeypad : (Keypad.released.press ⟨7⟩).release ⟨7⟩ = .released := by decide
  have hquiet : m.run [.keypad (.press ⟨7⟩), .keypad (.release ⟨7⟩), .timers .tick] = m :=
    Machine.ext rfl rfl rfl rfl hkeypad rfl rfl rfl rfl rfl rfl rfl
  have hpresses : m.Unheard [.keypad (.press ⟨12⟩), .keypad (.press ⟨7⟩)] :=
    unheard_cons.mpr ⟨Bool.noConfusion, unheard_cons.mpr ⟨Bool.noConfusion, unheard_nil⟩⟩
  have hsecond : m.Unheard [.cycle 0, .keypad (.press ⟨12⟩), .keypad (.press ⟨7⟩)] := by
    rw [unheard_cons, hcycle]
    exact ⟨fun _ => hidle, hpresses⟩
  have hunheard : m.Unheard ops := by
    rw [← hquiet] at hsecond
    rw [unheard_cons, hcycle]
    exact ⟨fun _ => hidle, unheard_cons.mpr ⟨Bool.noConfusion, unheard_cons.mpr
      ⟨Bool.noConfusion, unheard_cons.mpr ⟨Bool.noConfusion, hsecond⟩⟩⟩⟩
  -- at the end two keys are held, of which the lower one was pressed last
  have hops : ∀ op ∈ ops, op.isCycle = true ∨ op.isOutside = true := by decide
  obtain ⟨-, hevents, hstill, hlater⟩ := wait_loses_nothing hwait hops hunheard
  have hpc : (m.run ops).pc = 0xFFFF := congrArg Machine.pc hstill
  have hheld : (m.run ops).keypad = (Keypad.released.press ⟨12⟩).press ⟨7⟩ := by
    rw [← hkeypad]
    exact congrArg Machine.keypad hevents
  have hseven : (m.run ops).keypad.isHeld ⟨7⟩ = true := by
    rw [hheld]
    decide
  obtain ⟨-, ⟨k, hk, hlowest, hreg, hmachine⟩, hskips⟩ := hlater 0 ⟨⟨7⟩, hseven⟩
  have hfound : k = ⟨7⟩ := by
    rw [hheld] at hk
    simp only [Keypad.isHeld_press, Keypad.isHeld_released, Bool.or_false, Bool.or_eq_true,
      decide_eq_true_eq] at hk
    rcases hk with hseven' | rfl
    · exact hseven'
    · exact absurd (hlowest ⟨7⟩ hseven) (by decide)
  have hnext : ((m.run ops).cycle 0).machine.pc = (m.run ops).pc + 2 :=
    congrArg Machine.pc hmachine
  refine ⟨hwait, hunheard, hpc, ?_, ?_, hskips [.timers .tick] (by decide)⟩
  · rw [hreg, hfound]
    rfl
  · rw [hnext, hpc]
    decide

end Chip8.Machine
