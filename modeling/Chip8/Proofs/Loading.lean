import Mathlib.Data.List.GetD
import Chip8.Proofs.Runs

/-!
# Loading a program

A load sets a machine up anew. Apart from what the front end and the player decide, it leaves
nothing of what went on before: the parts that a load keeps and those that it sets make up the
whole machine, so that machines with different histories are equal once they have loaded the same
program.

## Main definitions

* `fitted` — a program as it fills the program area
* `Machine.Loaded` — what a machine is after a load
* `Machine.SameSetting` — machines that agree in what a load keeps

## Main results

* `Machine.loaded_load` — a load does what it should
* `Machine.Loaded.unique` — nothing else is left to tell machines apart
* `Machine.load_resets` — all of it, with what is logged
-/

namespace Chip8

/-- A program cut or padded with zeros to the size of the program area. -/
def fitted (program : List UInt8) : List UInt8 :=
  (program.take Layout.programCapacity).rightpad Layout.programCapacity 0

theorem getD_fitted (program : List UInt8) {k : Nat} (hk : k < Layout.programCapacity) :
    (fitted program).getD k 0 = program.getD k 0 := by
  rw [fitted, List.rightpad]
  rcases Nat.lt_or_ge k program.length with hlt | hge
  · have hkept : k < (program.take Layout.programCapacity).length := by
      rw [List.length_take]
      exact Nat.lt_min.mpr ⟨hk, hlt⟩
    rw [List.getD_append _ _ _ _ hkept, List.getD_eq_getElem _ _ hkept, List.getElem_take,
      List.getD_eq_getElem _ _ hlt]
  · have hpadded : (program.take Layout.programCapacity).length ≤ k :=
      Nat.le_trans (List.length_take_le' _ _) hge
    rw [List.getD_append_right _ _ _ _ hpadded, List.getD_eq_default _ _ hge]
    simp

namespace Machine

variable {m m' after after' : Machine} {program program' : List UInt8} {now : Nat}

/-- What a machine is after a load: all that does not come from the program and is not set anew is
as it was in `m`. -/
structure Loaded (m : Machine) (program : List UInt8) (now : Nat) (after : Machine) : Prop where
  options : after.options = m.options
  keypad : after.keypad = m.keypad
  /-- The interpreter area is left alone. -/
  below : ∀ a : Address, a.val < 0x200 → after.memory.read a = m.memory.read a
  /-- The program lies in the program area, as far as it fits. -/
  byte : ∀ (k : Nat) (hk : k < program.length) (hfits : 0x200 + k < 0x1000),
    after.memory.read ⟨0x200 + k, hfits⟩ = program[k]
  /-- The rest of the program area is cleared. -/
  padding : ∀ k, program.length ≤ k → ∀ hfits : 0x200 + k < 0x1000,
    after.memory.read ⟨0x200 + k, hfits⟩ = 0
  display : after.display.isBlank = true
  redraw : after.redraw = false
  registers : ∀ r, after.reg r = 0
  index : after.index = 0
  pc : after.pc = 0x200
  stack : after.stack = []
  fault : after.fault = none
  timers : after.timers =
    { delay := 0, sound := 0, running := m.options.enableTimer || m.timers.running }
  clock : after.clock = if m.options.enableTimer then m.clock.start now else m.clock

/-- Machines that agree in what a load keeps. -/
structure SameSetting (m m' : Machine) : Prop where
  options : m.options = m'.options
  keypad : m.keypad = m'.keypad
  below : ∀ a : Address, a.val < 0x200 → m.memory.read a = m'.memory.read a
  running : m.timers.running = m'.timers.running
  clock : m.clock = m'.clock

/-! ### What a load does -/

theorem read_load_program (m : Machine) (program : List UInt8) (now : Nat) {k : Nat}
    (hfits : 0x200 + k < 0x1000) :
    (m.load program now).machine.memory.read ⟨0x200 + k, hfits⟩ = program.getD k 0 := by
  have hplace : ¬ 0x200 + k < Layout.programStart := Nat.not_lt.mpr (Nat.le_add_right _ _)
  have hoffset : 0x200 + k - Layout.programStart = k := Nat.add_sub_cancel_left _ _
  rw [memory_load, Memory.read_load, if_neg hplace, hoffset]

/-- A load does what it should. -/
theorem loaded_load (m : Machine) (program : List UInt8) (now : Nat) :
    m.Loaded program now (m.load program now).machine := by
  refine
    { options := by rw [machine_load_eq, reset]
      keypad := by rw [machine_load_eq, reset]
      below := fun a ha => ?_
      byte := fun k hk hfits => ?_
      padding := fun k hk hfits => ?_
      display := ?_
      redraw := by rw [machine_load_eq, reset]
      registers := fun r => ?_
      index := by rw [machine_load_eq, reset]
      pc := pc_load m program now
      stack := stack_load m program now
      fault := fault_load m program now
      timers := by rw [machine_load_eq]
      clock := by rw [machine_load_eq] }
  · rw [memory_load, Memory.read_load]
    exact if_pos ha
  · rw [read_load_program, List.getD_eq_getElem _ _ hk]
  · rw [read_load_program, List.getD_eq_default _ _ hk]
  · rw [display_load]
    exact Display.isBlank_iff.mpr Display.pixel_blank
  · rw [machine_load_eq, reset]
    exact Registers.get_zero r

theorem message_oversized (length : Nat) :
    (Event.oversized length).message =
      "program is " ++ toString length ++
        " bytes long; only the first 3584 will be loaded" := by
  have htail : " bytes long; only the first " ++ (toString Layout.programCapacity ++
      " will be loaded") = " bytes long; only the first 3584 will be loaded" := rfl
  -- stated for any text, since no digits of `length` are to be computed
  have hspelled : ∀ digits : String,
      "program is " ++ digits ++ " bytes long; only the first " ++
        toString Layout.programCapacity ++ " will be loaded" =
      "program is " ++ digits ++ " bytes long; only the first 3584 will be loaded" := by
    intro digits
    rw [String.append_assoc, String.append_assoc]
    exact congrArg ("program is " ++ digits ++ ·) htail
  exact hspelled (toString length)

/-- A warning is logged if and only if the program does not fit, and then how much was loaded. -/
theorem log_load (m : Machine) (program : List UInt8) (now : Nat) :
    (m.load program now).log.map (fun e => (e.level, e.message)) =
      (if 0xE00 < program.length then
        [(.warn, "program is " ++ toString program.length ++
          " bytes long; only the first 3584 will be loaded")]
      else []) ++
        [(.info, "loaded " ++ toString (min program.length 0xE00) ++ " byte program")] := by
  have hlog : (m.load program now).log =
      (if 0xE00 < program.length then [.oversized program.length] else []) ++
        [.loaded (min program.length 0xE00)] := rfl
  rw [hlog, List.map_append, apply_ite (List.map _), List.map_cons, message_oversized]
  rfl

/-! ### What is left of the past -/

theorem Loaded.read_program (h : m.Loaded program now after) {k : Nat}
    (hfits : 0x200 + k < 0x1000) :
    after.memory.read ⟨0x200 + k, hfits⟩ = (fitted program).getD k 0 := by
  have hk : k < Layout.programCapacity := Nat.add_lt_add_iff_left.mp hfits
  rw [getD_fitted program hk]
  rcases Nat.lt_or_ge k program.length with hlt | hge
  · rw [h.byte k hlt hfits, List.getD_eq_getElem _ _ hlt]
  · rw [h.padding k hge hfits, List.getD_eq_default _ _ hge]

theorem Loaded.memory_eq (h : m.Loaded program now after) (h' : m'.Loaded program' now after')
    (hsetting : m.SameSetting m') (hprogram : fitted program = fitted program') :
    after.memory = after'.memory := by
  ext ⟨a, ha⟩
  rcases Nat.lt_or_ge a 0x200 with hlow | hhigh
  · rw [h.below _ hlow, h'.below _ hlow, hsetting.below _ hlow]
  · obtain ⟨k, rfl⟩ := Nat.exists_eq_add_of_le hhigh
    rw [h.read_program ha, h'.read_program ha, hprogram]

/-- What a machine is after a load does not depend on its past: machines that agree in what a load
keeps are equal after loading programs that fill the program area alike. -/
theorem Loaded.unique (h : m.Loaded program now after) (h' : m'.Loaded program' now after')
    (hsetting : m.SameSetting m') (hprogram : fitted program = fitted program') :
    after = after' := by
  have hdisplay : after.display = after'.display :=
    (beq_iff_eq.mp h.display).trans (beq_iff_eq.mp h'.display).symm
  have hregisters : after.registers = after'.registers :=
    Registers.ext fun r => (h.registers r).trans (h'.registers r).symm
  have htimers : after.timers = after'.timers := by
    rw [h.timers, h'.timers, hsetting.options, hsetting.running]
  have hclock : after.clock = after'.clock := by
    rw [h.clock, h'.clock, hsetting.options, hsetting.clock]
  apply Machine.ext
  case memory => exact h.memory_eq h' hsetting hprogram
  case display => exact hdisplay
  case registers => exact hregisters
  case timers => exact htimers
  case clock => exact hclock
  case options => rw [h.options, h'.options, hsetting.options]
  case keypad => rw [h.keypad, h'.keypad, hsetting.keypad]
  case redraw => rw [h.redraw, h'.redraw]
  case index => rw [h.index, h'.index]
  case pc => rw [h.pc, h'.pc]
  case stack => rw [h.stack, h'.stack]
  case fault => rw [h.fault, h'.fault]

/-- **A load sets a machine up anew, whatever happened before.** The program fills the program area,
what the machine keeps is what belongs to the front end, the player and the interpreter area, and
all else is as in a new machine. Machines that agree in what is kept are therefore equal after
loading programs that fill the program area alike. What is logged is a warning if and only if the
program does not fit, and then how many bytes were loaded. -/
theorem load_resets (m : Machine) (program : List UInt8) (now : Nat) :
    m.Loaded program now (m.load program now).machine ∧
    (∀ m' program', m.SameSetting m' → fitted program = fitted program' →
      (m.load program now).machine = (m'.load program' now).machine) ∧
    (m.load program now).log.map (fun e => (e.level, e.message)) =
      (if 0xE00 < program.length then
        [(.warn, "program is " ++ toString program.length ++
          " bytes long; only the first 3584 will be loaded")]
      else []) ++
        [(.info, "loaded " ++ toString (min program.length 0xE00) ++ " byte program")] := by
  refine ⟨loaded_load m program now, fun m' program' hsetting hprogram => ?_,
    log_load m program now⟩
  exact (loaded_load m program now).unique (loaded_load m' program' now) hsetting hprogram

/-- A machine in the middle of a call and a new one, after loading programs that do not fit and
agree in what does. -/
theorem load_resets_in_middle_of_call :
    let m := new .standard
    let m' := m.run [.setRegister .vF 7, .execute (.call 0x300) 0, .timers (.setDelay 9)]
    m.SameSetting m' ∧
      fitted (List.replicate 4000 0x11) = fitted (List.replicate 5000 0x11) ∧
      (m.load (List.replicate 4000 0x11) 5).machine =
        (m'.load (List.replicate 5000 0x11) 5).machine := by
  intro m m'
  have hsetting : m.SameSetting m' := ⟨rfl, rfl, fun _ _ => rfl, rfl, rfl⟩
  have hprogram : fitted (List.replicate 4000 0x11) = fitted (List.replicate 5000 0x11) := by
    rw [fitted, fitted, List.take_replicate, List.take_replicate]
    rfl
  obtain ⟨-, hequal, -⟩ := load_resets m (List.replicate 4000 0x11) 5
  exact ⟨hsetting, hprogram, hequal m' _ hsetting hprogram⟩

end Machine

end Chip8
