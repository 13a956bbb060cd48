import Mathlib.Data.List.Forall2
import Chip8.Proofs.Transfers

/-!
# The upper bits of addresses

Memory has 4096 bytes, so a pointer needs only its lowest twelve bits. The others can get lost or
added in arithmetic, but nothing depends on them: machines whose pointers agree modulo 4096 go
through the same run.

## Main definitions

* `SamePlace` — pointers that agree modulo 4096
* `Fault.Alike`, `Machine.Alike`, `Outcome.Alike` — equal up to pointers to the same place

## Main results

* `Machine.Alike.execute`, `Machine.Alike.cycle`, `Machine.Alike.perform` — alike machines have
  alike outcomes
* `Machine.Alike.outcomes_alike` — alike machines go through alike runs
-/

namespace Chip8

/-! ### Pointers -/

/-- Two pointers agree modulo 4096. -/
def SamePlace (p q : UInt16) : Prop := p.toNat % 0x1000 = q.toNat % 0x1000

instance (p q : UInt16) : Decidable (SamePlace p q) :=
  inferInstanceAs (Decidable (_ = _))

namespace SamePlace

variable {p q : UInt16}

theorem refl (p : UInt16) : SamePlace p p := Eq.refl _

theorem wrap_eq (h : SamePlace p q) : Address.wrap p = Address.wrap q := Fin.ext h

theorem add (h : SamePlace p q) (k : UInt16) : SamePlace (p + k) (q + k) := by
  simp only [SamePlace, UInt16.toNat_add] at h ⊢
  -- a pointer wraps around at 2 ^ 16, and that is a multiple of 4096
  omega

theorem sub (h : SamePlace p q) (k : UInt16) : SamePlace (p - k) (q - k) := by
  simp only [SamePlace, UInt16.toNat_sub] at h ⊢
  omega

end SamePlace

namespace Memory

variable {p q : UInt16}

theorem readRun_of_samePlace (mem : Memory) (h : SamePlace p q) (n : Nat) :
    mem.readRun p n = mem.readRun q n := by
  induction n generalizing p q with
  | zero => rfl
  | succ n ih => rw [readRun, readRun, h.wrap_eq, ih (h.add 1)]

theorem writeRun_of_samePlace (mem : Memory) (h : SamePlace p q) (bytes : List UInt8) :
    mem.writeRun p bytes = mem.writeRun q bytes := by
  induction bytes generalizing mem p q with
  | nil => rfl
  | cons b rest ih => rw [writeRun, writeRun, h.wrap_eq, ih _ (h.add 1)]

end Memory

/-! ### Alike machines -/

/-- Faults of one kind, with one target, from the same place. -/
inductive Fault.Alike : Fault → Fault → Prop where
  | stackOverflow {p q : UInt16} (source : SamePlace p q) :
      Alike (.stackOverflow p) (.stackOverflow q)
  | stackUnderflow {p q : UInt16} (source : SamePlace p q) :
      Alike (.stackUnderflow p) (.stackUnderflow q)
  | jumpBelowProgram {p q : UInt16} (source : SamePlace p q) (target : UInt16) :
      Alike (.jumpBelowProgram p target) (.jumpBelowProgram q target)

theorem Fault.Alike.refl (f : Fault) : f.Alike f := by
  cases f with
  | stackOverflow p => exact .stackOverflow (.refl p)
  | stackUnderflow p => exact .stackUnderflow (.refl p)
  | jumpBelowProgram p target => exact .jumpBelowProgram (.refl p) target

theorem Fault.none_or_alike {f? f?' : Option Fault} (h : Option.Rel Fault.Alike f? f?') :
    (f? = none ∧ f?' = none) ∨ ∃ f f', f? = some f ∧ f?' = some f' ∧ f.Alike f' := by
  cases h with
  | none => exact Or.inl ⟨rfl, rfl⟩
  | some hf => exact Or.inr ⟨_, _, rfl, rfl, hf⟩

/-- Machines that differ at most in the upper bits of the program counter, of `I`, of the return
addresses and of the address of a recorded fault. -/
structure Machine.Alike (m m' : Machine) : Prop where
  options : m.options = m'.options
  memory : m.memory = m'.memory
  display : m.display = m'.display
  redraw : m.redraw = m'.redraw
  keypad : m.keypad = m'.keypad
  registers : m.registers = m'.registers
  index : SamePlace m.index m'.index
  timers : m.timers = m'.timers
  clock : m.clock = m'.clock
  pc : SamePlace m.pc m'.pc
  stack : List.Forall₂ SamePlace m.stack m'.stack
  fault : Option.Rel Fault.Alike m.fault m'.fault

/-- Changing the upper bits of pointers makes an alike machine. -/
theorem Machine.Alike.of_pointers {m : Machine} {p q : UInt16} {stack : List UInt16}
    (hindex : SamePlace m.index p) (hpc : SamePlace m.pc q)
    (hstack : List.Forall₂ SamePlace m.stack stack) :
    m.Alike { m with index := p, pc := q, stack := stack } := by
  have hfault : Option.Rel Fault.Alike m.fault m.fault := by
    cases m.fault with
    | none => exact .none
    | some f => exact .some (.refl f)
  exact ⟨rfl, rfl, rfl, rfl, rfl, rfl, hindex, rfl, rfl, hpc, hstack, hfault⟩

/-- Outcomes on alike machines, both without a fault or with alike ones. -/
structure Outcome.Alike (o o' : Outcome) : Prop where
  machine : o.machine.Alike o'.machine
  fault : Option.Rel Fault.Alike o.fault o'.fault

namespace Machine

variable {m m' : Machine} {f f' : Fault} {stack stack' : List UInt16}

theorem Alike.outcome (h : m.Alike m') (log log' : List Event) :
    Outcome.Alike { machine := m, log := log } { machine := m', log := log' } :=
  ⟨h, .none⟩

/-! ### What alike machines share -/

theorem Alike.reg_eq (h : m.Alike m') (r : Register) : m.reg r = m'.reg r :=
  congrArg (Registers.get · r) h.registers

theorem Alike.holds_eq (h : m.Alike m') (c : Condition) : c.holds m = c.holds m' := by
  have hkey : ∀ x, m.keyHeld x = m'.keyHeld x := by
    intro x
    rw [keyHeld, keyHeld, h.reg_eq, h.keypad]
  cases c with
  | isByte x b | notByte x b | same x y | differ x y =>
    simp only [Condition.holds, h.reg_eq]
  | held x | notHeld x => simp only [Condition.holds, hkey]

theorem Alike.halted_eq (h : m.Alike m') : m.halted = m'.halted := by
  rw [halted, halted]
  rcases Fault.none_or_alike h.fault with ⟨hnone, hnone'⟩ | ⟨f, f', hf, hf', -⟩
  · rw [hnone, hnone']
  · rw [hf, hf']
    rfl

theorem Alike.instruction_eq (h : m.Alike m') : m.instruction = m'.instruction := by
  rw [instruction, instruction, opcode, opcode, h.memory, h.pc.wrap_eq, (h.pc.add 1).wrap_eq]

theorem Alike.length_stack_eq (h : m.Alike m') : m.stack.length = m'.stack.length :=
  h.stack.length_eq

/-! ### Instructions that do not transfer control -/

theorem Alike.setReg (h : m.Alike m') (r : Register) (b : UInt8) :
    (m.setReg r b).Alike (m'.setReg r b) :=
  { h with registers := congrArg (Registers.set · r b) h.registers }

theorem Alike.setIndex (h : m.Alike m') {p q : UInt16} (hpointers : SamePlace p q) :
    Alike { m with index := p } { m' with index := q } :=
  { h with index := hpointers }

theorem Alike.setPc (h : m.Alike m') {p q : UInt16} (hpointers : SamePlace p q) :
    Alike { m with pc := p } { m' with pc := q } :=
  { h with pc := hpointers }

theorem Alike.setKeypad (h : m.Alike m') (change : Keypad → Keypad) :
    Alike { m with keypad := change m.keypad } { m' with keypad := change m'.keypad } :=
  { h with keypad := congrArg change h.keypad }

theorem Alike.setTimers (h : m.Alike m') (change : Timers → Timers) :
    Alike { m with timers := change m.timers } { m' with timers := change m'.timers } :=
  { h with timers := congrArg change h.timers }

theorem Alike.clearDisplay (h : m.Alike m') : m.clearDisplay.Alike m'.clearDisplay := by
  unfold Machine.clearDisplay
  rw [h.display, h.redraw]
  exact { h with display := rfl, redraw := rfl }

theorem Alike.combine (h : m.Alike m') (op : BinaryOp) (x y : Register) :
    (m.combine op x y).Alike (m'.combine op x y) := by
  unfold Machine.combine
  rw [h.reg_eq x, h.reg_eq y]
  refine Alike.setReg ?_ x _
  cases op.flag? (m'.reg x) (m'.reg y) with
  | none => exact h
  | some flag => exact h.setReg _ _

theorem Alike.shift (h : m.Alike m') (s : Shift) (x : Register) :
    (m.shift s x).Alike (m'.shift s x) := by
  unfold Machine.shift
  rw [h.reg_eq x, h.options]
  exact (h.setReg _ _).setReg _ _

theorem Alike.sprite_eq (h : m.Alike m') (rows : Nibble) : m.sprite rows = m'.sprite rows := by
  rw [sprite, sprite, h.memory, Memory.readRun_of_samePlace _ h.index]

theorem Alike.drawSprite (h : m.Alike m') (x y : Register) (rows : Nibble) :
    (m.drawSprite x y rows).Alike (m'.drawSprite x y rows) := by
  rw [Machine.drawSprite_eq, Machine.drawSprite_eq]
  rw [h.display, h.sprite_eq, h.reg_eq x, h.reg_eq y, h.redraw]
  refine Alike.setReg ?_ .vF _
  exact { h with display := rfl, redraw := rfl }

theorem Alike.awaitKey (h : m.Alike m') (x : Register) :
    (m.awaitKey x).Alike (m'.awaitKey x) := by
  have hfirst : m.keypad.first? = m'.keypad.first? := congrArg _ h.keypad
  unfold Machine.awaitKey
  rw [hfirst]
  cases m'.keypad.first? with
  | none =>
    exact h.setPc (h.pc.sub 2)
  | some k => exact h.setReg _ _

theorem Alike.storeRun (h : m.Alike m') (bytes : List UInt8) :
    (m.storeRun bytes).Alike (m'.storeRun bytes) := by
  have hmemory : m.memory.writeRun m.index bytes = m'.memory.writeRun m'.index bytes := by
    rw [h.memory, Memory.writeRun_of_samePlace _ h.index]
  unfold Machine.storeRun
  exact { h with memory := hmemory }

theorem Alike.restoreUpTo (h : m.Alike m') (x : Register) :
    (m.restoreUpTo x).Alike (m'.restoreUpTo x) := by
  have hregisters : m.registers.fill (m.memory.readRun m.index (x.index.val + 1)) =
      m'.registers.fill (m'.memory.readRun m'.index (x.index.val + 1)) := by
    rw [h.memory, Memory.readRun_of_samePlace _ h.index, h.registers]
  unfold Machine.restoreUpTo
  exact { h with registers := hregisters }

/-! ### Transfers of control -/

theorem Alike.fail (h : m.Alike m') (hf : f.Alike f') : (m.fail f).Alike (m'.fail f') :=
  ⟨h, .some hf⟩

theorem Alike.jumpTo (h : m.Alike m') (target : UInt16)
    (hstack : List.Forall₂ SamePlace stack stack') :
    (m.jumpTo target stack).Alike (m'.jumpTo target stack') := by
  -- the target does not come from a pointer of the machine, so one check decides for both
  rcases Nat.lt_or_ge target.toNat Layout.programStart with hlt | hle
  · rw [jumpTo_of_lt hlt, jumpTo_of_lt hlt]
    exact h.fail (.jumpBelowProgram (h.pc.sub 2) target)
  · rw [jumpTo_of_le hle, jumpTo_of_le hle]
    exact ⟨{ h with pc := .refl target, stack := hstack }, .none⟩

theorem Alike.call (h : m.Alike m') (target : UInt16) :
    (m.call target).Alike (m'.call target) := by
  by_cases hfull : m.stack.length = Layout.stackDepth
  · rw [call_of_full hfull, call_of_full (h.length_stack_eq.symm.trans hfull)]
    exact h.fail (.stackOverflow (h.pc.sub 2))
  · rw [call_of_free hfull, call_of_free (h.length_stack_eq ▸ hfull)]
    exact h.jumpTo target (.cons h.pc h.stack)

theorem Alike.ret (h : m.Alike m') : m.ret.Alike m'.ret := by
  have hstack := h.stack
  cases hm : m.stack with
  | nil =>
    rw [hm] at hstack
    have hm' : m'.stack = [] := List.forall₂_nil_left_iff.mp hstack
    rw [ret_of_nil hm, ret_of_nil hm']
    exact h.fail (.stackUnderflow (h.pc.sub 2))
  | cons back rest =>
    rw [hm] at hstack
    obtain ⟨back', rest', hback, hrest, hm'⟩ := List.forall₂_cons_left_iff.mp hstack
    rw [ret_of_cons hm, ret_of_cons hm']
    -- a return goes where it is told without a check, so no other bits are looked at
    exact ⟨{ h with pc := hback, stack := hrest }, .none⟩

/-! ### Operations and runs -/

/-- An instruction has alike outcomes on alike machines. -/
theorem Alike.execute (h : m.Alike m') (random : UInt8) (i : Instruction) :
    (m.execute random i).Alike (m'.execute random i) := by
  cases i with
  | clear => exact h.clearDisplay.outcome _ _
  | ret => exact h.ret
  | machineCode target => exact h.outcome _ _
  | jump target => exact h.jumpTo _ h.stack
  | call target => exact h.call _
  | jumpOffset base =>
    simp only [Machine.execute]
    rw [h.reg_eq]
    exact h.jumpTo _ h.stack
  | skip c =>
    simp only [Machine.execute]
    rw [h.holds_eq]
    cases c.holds m' with
    | false => exact h.outcome _ _
    | true => exact (h.setPc (h.pc.add 2)).outcome _ _
  | setByte x b => exact (h.setReg x b).outcome _ _
  | addByte x b =>
    simp only [Machine.execute]
    rw [h.reg_eq]
    exact (h.setReg x _).outcome _ _
  | binary op x y => exact (h.combine op x y).outcome _ _
  | shift s x => exact (h.shift s x).outcome _ _
  | setIndex target => exact (h.setIndex (.refl _)).outcome _ _
  | addIndex x =>
    simp only [Machine.execute]
    rw [h.reg_eq]
    exact (h.setIndex (h.index.add _)).outcome _ _
  | pointGlyph x =>
    simp only [Machine.execute]
    rw [h.reg_eq]
    exact (h.setIndex (.refl _)).outcome _ _
  | random x mask => exact (h.setReg x _).outcome _ _
  | draw x y rows => exact (h.drawSprite x y rows).outcome _ _
  | readDelay x =>
    simp only [Machine.execute]
    rw [h.timers]
    exact (h.setReg x _).outcome _ _
  | awaitKey x => exact (h.awaitKey x).outcome _ _
  | setDelay x =>
    simp only [Machine.execute]
    rw [h.reg_eq]
    exact (h.setTimers (Timers.setDelay · _)).outcome _ _
  | setSound x =>
    simp only [Machine.execute]
    rw [h.reg_eq]
    exact (h.setTimers (Timers.setSound · _)).outcome _ _
  | storeDigits x =>
    simp only [Machine.execute]
    rw [h.reg_eq]
    exact (h.storeRun _).outcome _ _
  | store x =>
    simp only [Machine.execute]
    rw [h.registers]
    exact (h.storeRun _).outcome _ _
  | restore x => exact (h.restoreUpTo x).outcome _ _
  | unknown w => exact h.outcome _ _

theorem Alike.fetched (h : m.Alike m') : m.fetched.Alike m'.fetched :=
  { h with pc := h.pc.add 2, redraw := rfl }

theorem Alike.halt (h : m.Alike m') (hf : f.Alike f') : (m.halt f).Alike (m'.halt f') :=
  { h with pc := h.pc.sub 2, fault := .some hf }

/-- A cycle has alike outcomes on alike machines. -/
theorem Alike.cycle (h : m.Alike m') (random : UInt8) :
    (m.cycle random).Alike (m'.cycle random) := by
  cases hrun : m'.halted with
  | true =>
    rw [cycle_of_halted (h.halted_eq.trans hrun), cycle_of_halted hrun]
    exact h.outcome _ _
  | false =>
    have hdone : (m.fetched.execute random m.instruction).Alike
        (m'.fetched.execute random m'.instruction) := by
      rw [h.instruction_eq]
      exact h.fetched.execute random m'.instruction
    rcases Fault.none_or_alike hdone.fault with ⟨hok, hok'⟩ | ⟨f, f', hf, hf', hsame⟩
    · rw [cycle_eq_of_ok (h.halted_eq.trans hrun) hok, cycle_eq_of_ok hrun hok']
      exact hdone.machine.outcome _ _
    · rw [cycle_eq_of_fault (h.halted_eq.trans hrun) hf, cycle_eq_of_fault hrun hf']
      exact ⟨hdone.machine.halt hsame, .some hsame⟩

theorem Alike.startTimers (h : m.Alike m') (now : Nat) :
    (m.startTimers now).Alike (m'.startTimers now) :=
  { h with
    timers := congrArg Timers.start h.timers
    clock := congrArg (Clock.start · now) h.clock }

theorem Alike.stopTimers (h : m.Alike m') : m.stopTimers.Alike m'.stopTimers :=
  { h with
    timers := congrArg Timers.stop h.timers
    clock := congrArg Clock.stop h.clock }

theorem Alike.updateTimers (h : m.Alike m') (now : Nat) :
    (m.updateTimers now).Alike (m'.updateTimers now) := by
  have hdue : m.dueTicks now = m'.dueTicks now := by
    rw [dueTicks, dueTicks, h.clock]
  unfold Machine.updateTimers
  rw [hdue]
  exact { h with
    timers := congrArg (Timers.ticks · _) h.timers
    clock := congrArg (fun clock => (clock.lap now).2) h.clock }

theorem Alike.reset (h : m.Alike m') (program : List UInt8) :
    (m.reset program).Alike (m'.reset program) := by
  have hmemory : m.memory.load program = m'.memory.load program :=
    congrArg (Memory.load · program) h.memory
  have htimers : m.timers.reset = m'.timers.reset := congrArg Timers.reset h.timers
  unfold Machine.reset
  exact ⟨h.options, hmemory, rfl, rfl, h.keypad, rfl, .refl 0, htimers, h.clock, .refl _, .nil,
    .none⟩

theorem Alike.load (h : m.Alike m') (program : List UInt8) (now : Nat) :
    (m.load program now).Alike (m'.load program now) := by
  unfold Machine.load
  rw [h.options]
  cases m'.options.enableTimer with
  | false => exact (h.reset program).outcome _ _
  | true => exact ((h.reset program).startTimers now).outcome _ _

/-- An operation has alike outcomes on alike machines. -/
theorem Alike.perform (h : m.Alike m') (op : Operation) :
    (m.perform op).Alike (m'.perform op) := by
  cases op with
  | load program now => exact h.load program now
  | cycle random => exact h.cycle random
  | execute i random => exact h.execute random i
  | setRegister r b => exact (h.setReg r b).outcome _ _
  | setIndex pointer => exact (h.setIndex (.refl pointer)).outcome _ _
  | keypad op => exact (h.setKeypad (Keypad.apply · op)).outcome _ _
  | timers op => exact (h.setTimers (Timers.apply · op)).outcome _ _
  | startTimers now => exact (h.startTimers now).outcome _ _
  | stopTimers => exact h.stopTimers.outcome _ _
  | updateTimers now => exact (h.updateTimers now).outcome _ _

/-- **The upper bits of addresses cannot be observed.** Machines that are equal but for the upper
bits of their pointers go through the same run: after each operation they are again equal up to
those bits, and an operation faults on both, in the same way, or on neither. -/
theorem Alike.outcomes_alike (h : m.Alike m') (ops : List Operation) :
    List.Forall₂ Outcome.Alike (m.outcomes ops) (m'.outcomes ops) := by
  induction ops generalizing m m' with
  | nil => exact .nil
  | cons op ops ih =>
    have hop := h.perform op
    exact .cons hop (ih hop.machine)

/-- A machine three of whose pointers have their upper bits changed, on a run that fetches, stores
to memory, returns, and faults on a second return. -/
theorem Alike.outcomes_alike_through_returns :
    let m := { new .standard with stack := [0x300] }
    let m' := { m with index := 0x7000, pc := 0x1200, stack := [0xF300] }
    let ops : List Operation :=
      [.cycle 0, .execute (.store .vF) 0, .execute .ret 0, .execute .ret 0]
    m.Alike m' ∧ List.Forall₂ Outcome.Alike (m.outcomes ops) (m'.outcomes ops) := by
  intro m m' ops
  have hindex : SamePlace m.index 0x7000 := by decide
  have hpc : SamePlace m.pc 0x1200 := by decide
  have hstack : List.Forall₂ SamePlace m.stack [0xF300] := .cons (by decide) .nil
  have h : m.Alike m' := .of_pointers hindex hpc hstack
  exact ⟨h, h.outcomes_alike ops⟩

end Machine

end Chip8
