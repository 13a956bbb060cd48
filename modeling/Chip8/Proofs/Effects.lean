import Chip8.Proofs.CallStack
import Chip8.Proofs.Redraw

/-!
# What instructions may change

Every instruction has a small part of the machine that it may change, and leaves all the rest as it
was, whether it faults or not. What that part is can be read off the instruction: only the bytes
stored from `I` on also depend on the machine.

There are seven ways in which instructions change a machine. That each instruction keeps to one of
them is shown once; what it leaves alone follows from there, part by part.

## Main definitions

* `Instruction.MayWrite` — the registers that an instruction may change
* `Instruction.storeLength`, `Machine.StoresAt` — the bytes of memory that it may change
* `Instruction.setsIndex` — whether it may change `I`
* `Machine.Effect` — the ways in which an instruction changes a machine
* `Machine.Confined` — nothing else than what an instruction may change has changed

## Main results

* `Machine.effect_execute` — every instruction keeps to one of the ways
* `Machine.execute_confined` — every instruction changes only what it may change
-/

namespace Chip8

/-- Whether an operation on two registers has a flag. -/
def BinaryOp.flags : BinaryOp → Bool
  | add | sub | subFrom => true
  | copy | or | and | xor => false

namespace Instruction

/-- The registers that an instruction may change. -/
def MayWrite (r : Register) : Instruction → Prop
  | setByte x _ | addByte x _ | random x _ | readDelay x | awaitKey x => r = x
  | binary op x _ => r = x ∨ op.flags = true ∧ r = .vF
  | shift _ x => r = x ∨ r = .vF
  | draw .. => r = .vF
  | restore x => r.index ≤ x.index
  | _ => False

/-- How many bytes an instruction stores, from `I` on. -/
def storeLength : Instruction → Nat
  | storeDigits _ => 3
  | store x => x.index.val + 1
  | _ => 0

/-- Whether an instruction may change `I`. -/
def setsIndex : Instruction → Bool
  | setIndex _ | addIndex _ | pointGlyph _ => true
  | _ => false

end Instruction

/-! ### Memory and registers -/

/-- Bytes written one behind the other change nothing outside of the places they come to lie in. -/
theorem Memory.read_writeRun_of_ne {m : Memory} {pointer : UInt16} {bytes : List UInt8}
    {a : Address} (h : ∀ k < bytes.length, a.val ≠ (pointer.toNat + k) % 0x1000) :
    (m.writeRun pointer bytes).read a = m.read a := by
  induction bytes generalizing m pointer with
  | nil => rfl
  | cons b rest ih =>
    have hfirst : a ≠ .wrap pointer := fun e => h 0 (Nat.zero_lt_succ _) (congrArg Fin.val e)
    have hrest : ∀ k < rest.length, a.val ≠ ((pointer + 1).toNat + k) % 0x1000 := by
      intro k hk hplace
      refine h (k + 1) (Nat.succ_lt_succ hk) ?_
      rw [hplace, UInt16.toNat_add]
      simp only [UInt16.toNat_one]
      omega
    rw [writeRun, ih hrest, read_write_of_ne _ _ hfirst]

theorem Registers.get_set_of_ne {rs : Registers} {r s : Register} {b : UInt8} (h : s ≠ r) :
    (rs.set r b).get s = rs.get s := by
  rw [get_set, if_neg h]

/-- Only as many registers are replaced as there are bytes. -/
theorem Registers.get_fill_of_le {rs : Registers} {bytes : List UInt8} {r : Register}
    (h : bytes.length ≤ r.index.val) : (rs.fill bytes).get r = rs.get r := by
  rw [get_fill, List.getD_eq_getElem?_getD, List.getElem?_eq_none h, Option.getD_none]

namespace Machine

/-! ### The ways in which instructions change a machine -/

/-- A byte is one of those that an instruction stores from `I` on. -/
def StoresAt (m : Machine) (i : Instruction) (a : Address) : Prop :=
  ∃ k < i.storeLength, a.val = (m.index.toNat + k) % 0x1000

/-- What an instruction makes of a machine. -/
inductive Effect (i : Instruction) (m : Machine) : Machine → Prop where
  /-- Control goes on elsewhere, or nothing happens. -/
  | control (pc : UInt16) (stack : List UInt16) : Effect i m { m with pc := pc, stack := stack }
  | registers (registers : Registers)
      (kept : ∀ r, ¬ i.MayWrite r → registers.get r = m.reg r) :
      Effect i m { m with registers := registers }
  | picture (draws : i.draws = true) (display : Display) (redraw : Bool) (registers : Registers)
      (kept : ∀ r, ¬ i.MayWrite r → registers.get r = m.reg r) :
      Effect i m { m with display := display, redraw := redraw, registers := registers }
  | index (sets : i.setsIndex = true) (index : UInt16) : Effect i m { m with index := index }
  | delay {x : Register} (sets : i = .setDelay x) (b : UInt8) :
      Effect i m { m with timers := m.timers.setDelay b }
  | sound {x : Register} (sets : i = .setSound x) (b : UInt8) :
      Effect i m { m with timers := m.timers.setSound b }
  | memory (bytes : List UInt8) (length : bytes.length = i.storeLength) :
      Effect i m (m.storeRun bytes)

variable {m after : Machine} {random : UInt8} {i : Instruction} {x y r : Register} {a : Address}

theorem Effect.nothing (i : Instruction) (m : Machine) : Effect i m m := .control m.pc m.stack

theorem Effect.setReg (b : UInt8) (h : i.MayWrite x) : Effect i m (m.setReg x b) := by
  refine .registers _ fun r hr => Registers.get_set_of_ne ?_
  rintro rfl
  exact hr h

/-- A result and a flag are put into two registers. -/
theorem Effect.setFlag_setReg (flag : Bool) (b : UInt8) (hx : i.MayWrite x)
    (hflag : i.MayWrite .vF) : Effect i m ((m.setFlag flag).setReg x b) := by
  refine .registers _ fun r hr => ?_
  have hne : r ≠ x := fun e => hr (e ▸ hx)
  have hne' : r ≠ .vF := fun e => hr (e ▸ hflag)
  exact (Registers.get_set_of_ne hne).trans (Registers.get_set_of_ne hne')

theorem effect_of_transfers (h : i.transfers = true) (random : UInt8) :
    Effect i m (m.execute random i).machine := by
  rcases transferred_execute h random with ⟨f, hfail⟩ | ⟨pc, stack, hgo⟩
  · rw [hfail]
    exact .nothing i m
  · rw [hgo]
    exact .control pc stack

theorem flags_of_flag? {op : BinaryOp} {b c : UInt8} {flag : Bool} (h : op.flag? b c = some flag) :
    op.flags = true := by
  cases op with
  | add | sub | subFrom => rfl
  | copy | or | and | xor => cases h

theorem effect_combine (op : BinaryOp) (x y : Register) :
    Effect (.binary op x y) m (m.combine op x y) := by
  simp only [combine]
  cases hflag : op.flag? (m.reg x) (m.reg y) with
  | none => exact .setReg _ (Or.inl rfl)
  | some flag => exact .setFlag_setReg _ _ (Or.inl rfl) (Or.inr ⟨flags_of_flag? hflag, rfl⟩)

theorem effect_drawSprite (x y : Register) (rows : Nibble) :
    Effect (.draw x y rows) m (m.drawSprite x y rows) := by
  rw [drawSprite_eq]
  exact .picture rfl _ _ _ fun r hr => Registers.get_set_of_ne hr

theorem effect_awaitKey (x : Register) : Effect (.awaitKey x) m (m.awaitKey x) := by
  unfold awaitKey
  cases m.keypad.first? with
  | none => exact .control _ _
  | some k => exact .setReg _ rfl

theorem effect_restoreUpTo (x : Register) : Effect (.restore x) m (m.restoreUpTo x) := by
  refine .registers _ fun r hr => Registers.get_fill_of_le ?_
  have hbehind : x.index < r.index := Fin.not_le.mp hr
  rw [Memory.length_readRun]
  exact hbehind

/-- Every instruction changes the machine in one of the seven ways. -/
theorem effect_execute (m : Machine) (random : UInt8) (i : Instruction) :
    Effect i m (m.execute random i).machine := by
  cases i with
  | ret | jump | call | jumpOffset => exact effect_of_transfers rfl random
  | machineCode | unknown => exact .nothing _ m
  | skip c =>
    simp only [execute]
    split
    · exact .control _ _
    · exact .nothing _ m
  | clear => exact .picture rfl _ _ _ fun _ _ => rfl
  | draw x y rows => exact effect_drawSprite x y rows
  | setByte | addByte | random | readDelay => exact .setReg _ rfl
  | binary op x y => exact effect_combine op x y
  | shift s x => exact .setFlag_setReg _ _ (Or.inl rfl) (Or.inr rfl)
  | awaitKey x => exact effect_awaitKey x
  | restore x => exact effect_restoreUpTo x
  | setIndex | addIndex | pointGlyph => exact .index rfl _
  | setDelay x => exact .delay rfl _
  | setSound x => exact .sound rfl _
  | storeDigits x => exact .memory _ rfl
  | store x => exact .memory _ (by rw [Registers.upTo, List.length_map, Register.length_upTo]; rfl)

/-! ### What is left alone -/

theorem Effect.read_memory (h : Effect i m after) (ha : ¬ m.StoresAt i a) :
    after.memory.read a = m.memory.read a := by
  cases h with
  | memory bytes length =>
    refine Memory.read_writeRun_of_ne fun k hk hplace => ha ⟨k, ?_, hplace⟩
    rw [← length]
    exact hk
  | _ => rfl

theorem Effect.reg (h : Effect i m after) (hr : ¬ i.MayWrite r) : after.reg r = m.reg r := by
  cases h with
  | registers registers kept => exact kept r hr
  | picture draws display redraw registers kept => exact kept r hr
  | _ => rfl

theorem Effect.index_eq (h : Effect i m after) (hi : i.setsIndex = false) :
    after.index = m.index := by
  cases h with
  | index sets => rw [hi] at sets; cases sets
  | _ => rfl

theorem Effect.delay_eq (h : Effect i m after) (hi : ∀ x, i ≠ .setDelay x) :
    after.timers.delay = m.timers.delay := by
  cases h with
  | delay sets => exact absurd sets (hi _)
  | _ => rfl

theorem Effect.sound_eq (h : Effect i m after) (hi : ∀ x, i ≠ .setSound x) :
    after.timers.sound = m.timers.sound := by
  cases h with
  | sound sets => exact absurd sets (hi _)
  | _ => rfl

/-- None of the ways reaches what belongs to the front end and the player. -/
theorem Effect.frontEnd_eq (h : Effect i m after) :
    after.timers.running = m.timers.running ∧ after.clock = m.clock ∧
      after.keypad = m.keypad ∧ after.options = m.options := by
  cases h with
  | _ => exact ⟨rfl, rfl, rfl, rfl⟩

/-- Apart from the program counter, what is different afterwards is what the instruction may
change. -/
structure Confined (i : Instruction) (m after : Machine) : Prop where
  memory : ∀ a, ¬ m.StoresAt i a → after.memory.read a = m.memory.read a
  registers : ∀ r, ¬ i.MayWrite r → after.reg r = m.reg r
  display : i.draws = false → after.display = m.display
  redraw : i.draws = false → after.redraw = m.redraw
  index : i.setsIndex = false → after.index = m.index
  /-- A call that succeeds pushes the program counter, a return pops what it goes on with. -/
  stack : StackChange (some i) m.pc m after
  delay : (∀ x, i ≠ .setDelay x) → after.timers.delay = m.timers.delay
  sound : (∀ x, i ≠ .setSound x) → after.timers.sound = m.timers.sound
  running : after.timers.running = m.timers.running
  clock : after.clock = m.clock
  keypad : after.keypad = m.keypad
  options : after.options = m.options
  fault : after.fault = m.fault

/-- **Every instruction changes only what it may change**, whether it faults or not. -/
theorem execute_confined (m : Machine) (random : UInt8) (i : Instruction) :
    Confined i m (m.execute random i).machine := by
  have heffect : Effect i m (m.execute random i).machine := effect_execute m random i
  obtain ⟨hrunning, hclock, hkeypad, hoptions⟩ := heffect.frontEnd_eq
  exact
    { memory := fun a ha => heffect.read_memory ha
      registers := fun r hr => heffect.reg hr
      display := fun hi => (samePicture_execute hi random).display
      redraw := fun hi => (samePicture_execute hi random).redraw
      index := heffect.index_eq
      stack := stackChange_execute m random i
      delay := heffect.delay_eq
      sound := heffect.sound_eq
      running := hrunning
      clock := hclock
      keypad := hkeypad
      options := hoptions
      fault := fault_machine_execute m random i }

end Machine

end Chip8
