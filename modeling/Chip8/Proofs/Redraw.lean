import Chip8.Proofs.Sprites
import Chip8.Proofs.Transfers

/-!
# The redraw flag

The machine does not compare displays. It raises its flag when it clears a display that was not
blank or draws a sprite that has a bit set. After a cycle the flag is nevertheless exact: it is
raised if and only if a pixel has changed. A front end that copies the display whenever the flag
asks for it, and never otherwise, therefore shows the display as it is.

## Main definitions

* `Instruction.draws` — whether an instruction touches the display
* `Machine.FlagExact` — after a cycle the flag says whether a pixel has changed
* `Operation.shown`, `Machine.screenAfter` — what a front end shows that follows the flag

## Main results

* `Machine.redraw_execute` — an instruction raises the flag if and only if it changes the display
* `Machine.FlagExact.of_running`, `Machine.FlagExact.of_settled` — cycles leave the flag exact
* `Machine.screenAfter_eq` — a screen that follows the flag stays current
* `Machine.redraw_exact` — all of it, for running machines and for runs from a new machine
-/

namespace Chip8

/-- Whether an instruction touches the display. -/
def Instruction.draws : Instruction → Bool
  | .clear | .draw .. => true
  | _ => false

namespace Machine

variable {m after : Machine} {random : UInt8} {i : Instruction} {op : Operation}
  {ops : List Operation} {screen : Display}

/-! ### Instructions -/

/-- The display and its flag are as before. -/
structure SamePicture (m after : Machine) : Prop where
  display : after.display = m.display
  redraw : after.redraw = m.redraw

theorem samePicture_execute_of_transfers (h : i.transfers = true) (random : UInt8) :
    m.SamePicture (m.execute random i).machine := by
  rcases transferred_execute h random with ⟨f, hfail⟩ | ⟨pc, stack, hgo⟩
  · rw [hfail]
    exact ⟨rfl, rfl⟩
  · rw [hgo]
    exact ⟨rfl, rfl⟩

/-- Only two instructions touch the display or its flag. -/
theorem samePicture_execute (h : i.draws = false) (random : UInt8) :
    m.SamePicture (m.execute random i).machine := by
  cases i with
  | clear | draw => exact Bool.noConfusion h
  | ret | jump | call | jumpOffset => exact samePicture_execute_of_transfers rfl random
  | skip c =>
    simp only [execute]
    split
    · exact ⟨rfl, rfl⟩
    · exact ⟨rfl, rfl⟩
  | binary op x y =>
    obtain ⟨registers, hcombine⟩ := m.exists_combine_eq op x y
    simp only [execute, hcombine]
    exact ⟨rfl, rfl⟩
  | awaitKey x =>
    obtain ⟨registers, pc, hawait⟩ := m.exists_awaitKey_eq x
    simp only [execute, hawait]
    exact ⟨rfl, rfl⟩
  | restore x =>
    simp only [execute, restoreUpTo]
    exact ⟨rfl, rfl⟩
  | _ => exact ⟨rfl, rfl⟩

theorem redraw_clearDisplay (m : Machine) :
    m.clearDisplay.redraw = (m.redraw || decide (m.clearDisplay.display ≠ m.display)) := by
  have hblank : (!m.display.isBlank) = decide (Display.blank ≠ m.display) := by
    rw [Display.isBlank, Bool.beq_eq_decide_eq, ← decide_not]
    exact decide_eq_decide.mpr ne_comm
  rw [clearDisplay, hblank]

/-- A sprite has fewer rows than the display, so no two of them meet. -/
theorem length_sprite_le (m : Machine) (rows : Nibble) : (m.sprite rows).length ≤ 32 := by
  have hrows := rows.isLt
  rw [sprite, Memory.length_readRun]
  omega

theorem redraw_drawSprite (m : Machine) (x y : Register) (rows : Nibble) :
    (m.drawSprite x y rows).redraw =
      (m.redraw || decide ((m.drawSprite x y rows).display ≠ m.display)) := by
  have hchanged := Display.changed_draw_iff (d := m.display) (x := (m.reg x).toNat)
    (y := (m.reg y).toNat) (m.length_sprite_le rows)
  have hflag := Bool.eq_iff_iff.mpr (hchanged.trans decide_eq_true_iff.symm)
  rw [drawSprite_eq, setFlag, setReg, hflag]

/-- An instruction raises the flag if and only if it changes the display; none lowers it. -/
theorem redraw_execute (m : Machine) (random : UInt8) (i : Instruction) :
    (m.execute random i).machine.redraw =
      (m.redraw || decide ((m.execute random i).machine.display ≠ m.display)) := by
  cases hdraws : i.draws with
  | false =>
    have hsame : m.SamePicture (m.execute random i).machine := samePicture_execute hdraws random
    simp [hsame.redraw, hsame.display]
  | true =>
    cases i with
    | clear => exact m.redraw_clearDisplay
    | draw x y rows => exact m.redraw_drawSprite x y rows
    | _ => exact Bool.noConfusion hdraws

/-! ### Cycles -/

/-- A cycle of a running machine that draws shows what the drawing leaves. -/
theorem display_cycle_of_draw {x y : Register} {rows : Nibble} (hrun : m.halted = false)
    (hdraw : m.instruction = .draw x y rows) (random : UInt8) :
    (m.cycle random).machine.display =
      (m.display.draw (m.sprite rows) (m.reg x).toNat (m.reg y).toNat).display := by
  have hok : (m.fetched.execute random m.instruction).fault = none := by
    rw [hdraw]
    rfl
  rw [cycle_eq_of_ok hrun hok, hdraw]
  rfl

/-- After a cycle the flag says whether a pixel has changed. -/
def FlagExact (m : Machine) : Prop :=
  ∀ random, (m.cycle random).machine.redraw = true ↔
    ∃ x < 64, ∃ y < 32, m.display.pixel x y ≠ (m.cycle random).machine.display.pixel x y

theorem flagExact_iff :
    m.FlagExact ↔
      ∀ random, (m.cycle random).machine.redraw = true ↔
        m.display ≠ (m.cycle random).machine.display := by
  simp only [FlagExact, Display.exists_pixel_ne_iff]

/-- The fetch lowers the flag, so after a cycle of a running machine it is exact. -/
theorem FlagExact.of_running (hrun : m.halted = false) : m.FlagExact := by
  refine flagExact_iff.mpr fun random => ?_
  rcases m.cycle_cases random with ⟨hhalted, -⟩ | ⟨-, -, -, hmachine⟩ | ⟨f, -, -, -, hmachine⟩
  · rw [hrun] at hhalted
    cases hhalted
  · have hflag := m.fetched.redraw_execute random m.instruction
    have hlow : m.fetched.redraw = false := rfl
    have hkept : m.fetched.display = m.display := rfl
    rw [hmachine, hflag, hlow, hkept, Bool.false_or, decide_eq_true_iff]
    exact ne_comm
  · rw [hmachine]
    simp

/-- A halted machine does not ask to be redrawn. -/
def Settled (m : Machine) : Prop := m.halted = true → m.redraw = false

theorem FlagExact.of_settled (h : m.Settled) : m.FlagExact := by
  cases hrun : m.halted with
  | false => exact .of_running hrun
  | true =>
    refine flagExact_iff.mpr fun random => ?_
    rw [cycle_of_halted hrun, h hrun]
    simp

theorem Settled.cycle (h : m.Settled) (random : UInt8) : (m.cycle random).machine.Settled := by
  rcases m.cycle_cases random with ⟨-, hcycle⟩ | ⟨hrun, -, -, hmachine⟩ | ⟨f, -, -, -, hmachine⟩
  · rw [hcycle]
    exact h
  · intro hhalted
    rw [hmachine, halted, fault_machine_execute] at hhalted
    rw [halted] at hrun
    exact absurd (hrun.symm.trans hhalted) Bool.false_ne_true
  · rw [hmachine]
    exact fun _ => rfl

theorem Settled.perform (h : m.Settled) (hop : op.isExecute = false) :
    (m.perform op).machine.Settled := by
  cases op with
  | execute => exact Bool.noConfusion hop
  | load program now =>
    intro hhalted
    rw [perform, halted, fault_load] at hhalted
    cases hhalted
  | cycle random => exact h.cycle random
  | _ => exact h

theorem settled_run (options : Options) (hops : ∀ op ∈ ops, op.isExecute = false) :
    ((new options).run ops).Settled :=
  run_induction_of (P := Settled) (fun _ _ hop h => h.perform hop) hops fun _ => rfl

/-! ### The screen of a front end -/

/-- What a front end shows that follows the flag: nothing when a program is loaded, the display
when a cycle has raised the flag, and otherwise what it showed before. -/
def Operation.shown (op : Operation) (after : Machine) (screen : Display) : Display :=
  match op with
  | .load .. => .blank
  | .cycle _ => if after.redraw then after.display else screen
  | _ => screen

/-- What such a front end shows after a run, when it showed `screen` before. -/
def screenAfter (m : Machine) (screen : Display) : List Operation → Display
  | [] => screen
  | op :: ops =>
    let after := (m.perform op).machine
    after.screenAfter (op.shown after screen) ops

/-- A screen that is current stays current. -/
theorem shown_eq (hm : m.Settled) (hop : op.isExecute = false) :
    op.shown (m.perform op).machine m.display = (m.perform op).machine.display := by
  cases op with
  | execute => exact Bool.noConfusion hop
  | load program now => exact (m.display_load program now).symm
  | cycle random =>
    have hflag := flagExact_iff.mp (.of_settled hm) random
    rw [Operation.shown, perform]
    split
    · rfl
    · next hlow =>
      rw [hflag] at hlow
      exact Classical.not_not.mp hlow
  | _ => rfl

theorem screenAfter_eq (hm : m.Settled) (hops : ∀ op ∈ ops, op.isExecute = false) :
    m.screenAfter m.display ops = (m.run ops).display := by
  induction ops generalizing m with
  | nil => rfl
  | cons op ops ih =>
    obtain ⟨hop, hrest⟩ := List.forall_mem_cons.mp hops
    rw [screenAfter, shown_eq hm hop]
    exact ih (hm.perform hop) hrest

/-- **The redraw flag is exact.** After a cycle of a machine that was not halted the flag is raised
if and only if a pixel has changed. On runs from a new machine that execute no instruction without
a fetch this holds of every cycle, those of halted machines included; and a front end that starts
from a blank screen at a load and copies the display when a cycle has raised the flag shows the
display as it is, whatever it showed before. -/
theorem redraw_exact :
    (∀ m : Machine, m.halted = false → m.FlagExact) ∧
    ∀ options ops, (∀ op ∈ ops, op.isExecute = false) →
      let m := (new options).run ops
      m.FlagExact ∧
      ∀ screen program now rest, (∀ op ∈ rest, op.isExecute = false) →
        m.screenAfter screen (.load program now :: rest) =
          (m.run (.load program now :: rest)).display := by
  refine ⟨fun m hrun => .of_running hrun, fun options ops hops => ?_⟩
  intro m
  have hm : m.Settled := settled_run options hops
  refine ⟨.of_settled hm, fun screen program now rest hrest => ?_⟩
  -- whatever the screen showed, the load blanks it together with the display
  have hload : (Operation.load program now).isExecute = false := rfl
  have hloaded : (m.load program now).machine.Settled := hm.perform hload
  have hcurrent := screenAfter_eq hloaded hrest
  rw [display_load] at hcurrent
  rw [screenAfter, run_cons]
  exact hcurrent

/-- The screen of a front end while a program draws the first of its own bytes. -/
theorem redraw_exact_of_drawn_byte :
    let ops : List Operation := [.setIndex 0x200, .cycle 0]
    (∀ op ∈ ops, op.isExecute = false) ∧
      ((new .quiet).screenAfter .blank (.load [0xD0, 0x01] 0 :: ops)).pixel 0 0 = true := by
  intro ops
  have hops : ∀ op ∈ ops, op.isExecute = false := by decide
  obtain ⟨-, hruns⟩ := redraw_exact
  obtain ⟨-, hscreen⟩ := hruns .quiet [] (by decide)
  have hcurrent := hscreen .blank [0xD0, 0x01] 0 ops hops
  rw [run_nil, run_cons] at hcurrent
  -- stated for any machine, so that no memory has to be evaluated
  have hdrawn : ∀ fresh : Machine, fresh.fault = none → fresh.instruction = .draw .v0 .v0 1 →
      fresh.memory.read (.wrap 0x200) = 0xD0 → fresh.reg .v0 = 0 → fresh.display = .blank →
      (fresh.run ops).display = (Display.blank.draw [0xD0] 0 0).display := by
    intro fresh hfault hdraw hbyte hzero hblank
    have hrun : { fresh with index := 0x200 }.halted = false := halted_eq_false_iff.mpr hfault
    have hdraw' : { fresh with index := 0x200 }.instruction = .draw .v0 .v0 1 := hdraw
    have hzero' : { fresh with index := 0x200 }.reg .v0 = 0 := hzero
    have hsprite : { fresh with index := 0x200 }.sprite 1 = [0xD0] := congrArg (· :: []) hbyte
    simp only [ops, run_cons, run_nil, perform]
    rw [display_cycle_of_draw hrun hdraw', hsprite, hzero', hblank]
    rfl
  have hdraw : ((new .quiet).load [0xD0, 0x01] 0).machine.instruction = .draw .v0 .v0 1 := by
    rw [instruction_load]
    decide
  have hbyte : ((new .quiet).load [0xD0, 0x01] 0).machine.memory.read (.wrap 0x200) = 0xD0 := by
    have hplace : ¬ (Address.wrap 0x200).val < Layout.programStart := by decide
    rw [memory_load, Memory.read_load, if_neg hplace]
    decide
  have hdisplay := hdrawn _ (fault_load _ _ _) hdraw hbyte rfl (display_load _ _ _)
  refine ⟨hops, ?_⟩
  rw [hcurrent]
  exact (congrArg (Display.pixel · 0 0) hdisplay).trans (by decide)

end Machine

end Chip8
