import Chip8.Proofs.Effects
import Chip8.Proofs.TimerHistory

/-!
# The timers on the wall clock

Whether the timers run is noted twice: the timers have a switch of their own, and the wall clock
that drives them can be started and stopped. A front end that uses the machine's operations to start
and stop both never takes them apart, so a clock that has ticks to report finds its timers running.

An update applies these ticks, but never more than a counter can count. Nothing is lost by that: a
counter is a byte, so further ticks find it at zero. What an update leaves is therefore what all the
ticks one by one would have left, and also what the number of ticks it reports would have.

## Main definitions

* `Machine.Operation.switchesTimersOnly` — the operations that take timers and clock apart
* `Machine.InStep` — the timers run exactly while the clock does

## Main results

* `Timers.toNat_value_ticks`, `Timers.ticks_min` — several ticks, and as many as a counter can count
* `Machine.inStep_run` — timers and clock stay in step
* `Machine.update_applies_due_ticks` — an update does what the ticks do that went by
-/

namespace Chip8

/-! ### Several ticks -/

namespace Timers

variable {c : Counter} {t t' : Timers} {n : Nat}

theorem ext_value (hvalue : ∀ c, t.value c = t'.value c) (hrunning : t.running = t'.running) :
    t = t' := by
  cases t with
  | mk delay sound running =>
    obtain rfl : delay = t'.delay := hvalue .delay
    obtain rfl : sound = t'.sound := hvalue .sound
    obtain rfl : running = t'.running := hrunning
    rfl

@[simp] theorem running_ticks (t : Timers) (n : Nat) : (t.ticks n).running = t.running := by
  induction n generalizing t with
  | zero => rfl
  | succ n ih => rw [ticks, ih, running_tick]

/-- Ticks change the counters and nothing else. -/
theorem ticks_eq (t : Timers) (n : Nat) :
    t.ticks n = { t with delay := (t.ticks n).delay, sound := (t.ticks n).sound } := by
  refine ext_value (fun c => ?_) (t.running_ticks n)
  cases c with
  | delay | sound => rfl

theorem toNat_value_ticks (t : Timers) (c : Counter) (n : Nat) :
    ((t.ticks n).value c).toNat =
      if t.running then (t.value c).toNat - n else (t.value c).toNat := by
  induction n generalizing t with
  | zero => rw [ticks, Nat.sub_zero, ite_self]
  | succ n ih =>
    rw [ticks, ih, running_tick, toNat_value_tick]
    cases t.running with
    | true => simp only [if_true, Nat.sub_sub, Nat.add_comm 1 n]
    | false => rfl

/-- A counter is at zero after as many ticks as a byte can count, so more make no difference. -/
theorem ticks_min (t : Timers) (n : Nat) : t.ticks (min n 255) = t.ticks n := by
  refine ext_value (fun c => ?_) (by rw [running_ticks, running_ticks])
  have hbyte := (t.value c).toNat_lt
  apply UInt8.toNat_inj.mp
  rw [toNat_value_ticks, toNat_value_ticks]
  split
  · omega
  · rfl

end Timers

namespace Machine

/-- Whether an operation starts or stops the timers and leaves the clock alone. -/
def Operation.switchesTimersOnly : Operation → Bool
  | .timers .start | .timers .stop => true
  | _ => false

/-- The timers run exactly while the wall clock does. -/
def InStep (m : Machine) : Prop := m.timers.running = m.clock.running

variable {m : Machine} {op : Operation} {ops : List Operation}

/-! ### Timers and clock -/

theorem InStep.execute (h : m.InStep) (random : UInt8) (i : Instruction) :
    (m.execute random i).machine.InStep := by
  obtain ⟨hrunning, hclock, -, -⟩ := (effect_execute m random i).frontEnd_eq
  rw [InStep, hrunning, hclock]
  exact h

theorem InStep.cycle (h : m.InStep) (random : UInt8) : (m.cycle random).machine.InStep := by
  rcases m.cycle_cases random with ⟨-, hcycle⟩ | ⟨-, -, -, hmachine⟩ | ⟨f, -, -, -, hmachine⟩
  · rw [hcycle]
    exact h
  · have hfetched : m.fetched.InStep := h
    rw [hmachine]
    exact hfetched.execute random m.instruction
  · rw [hmachine]
    exact h

theorem InStep.load (h : m.InStep) (program : List UInt8) (now : Nat) :
    (m.load program now).machine.InStep := by
  rw [InStep, machine_load_eq]
  cases m.options.enableTimer with
  | true => rfl
  | false => exact h

theorem InStep.perform (h : m.InStep) (hop : op.switchesTimersOnly = false) :
    (m.perform op).machine.InStep := by
  cases op with
  | load program now => exact h.load program now
  | cycle random => exact h.cycle random
  | execute i random => exact h.execute random i
  | timers top =>
    cases top with
    | start | stop => exact Bool.noConfusion hop
    | tick => exact (m.timers.running_tick).trans h
    | reset | setDelay | setSound => exact h
  | startTimers | stopTimers => rfl
  | updateTimers now =>
    have hlap := m.clock.running_lap now
    exact (Timers.running_ticks _ _).trans (h.trans hlap.symm)
  | setRegister | setIndex | keypad => exact h

theorem inStep_run (options : Options) (hops : ∀ op ∈ ops, op.switchesTimersOnly = false) :
    ((new options).run ops).InStep :=
  run_induction_of (P := InStep) (fun _ _ hop h => h.perform hop) hops rfl

/-! ### Updates -/

/-- Ticks one by one do nothing but tick the timers. -/
theorem run_ticks (m : Machine) (n : Nat) :
    m.run (List.replicate n (.timers .tick)) = { m with timers := m.timers.ticks n } := by
  induction n generalizing m with
  | zero => rfl
  | succ n ih =>
    rw [List.replicate_succ, run_cons, ih]
    rfl

/-- An update is all the ticks that went by, also where it applies fewer. -/
theorem updateTimers_eq (m : Machine) (now : Nat) :
    m.updateTimers now =
      { m with
        timers := m.timers.ticks (m.clock.lap now).1.toNat
        clock := (m.clock.lap now).2 } := by
  rw [updateTimers, dueTicks, maxTicks, Timers.ticks_min]

/-- What an update leaves in a counter, if timers and clock are in step. -/
theorem InStep.toNat_value_updateTimers (h : m.InStep) (now : Nat) (c : Timers.Counter) :
    ((m.updateTimers now).timers.value c).toNat =
      (m.timers.value c).toNat - (m.clock.lap now).1.toNat := by
  rw [updateTimers_eq, Timers.toNat_value_ticks]
  split
  · rfl
  · next hstopped =>
    -- stopped timers are not ticked, but their clock has nothing to report either
    have hclock : m.clock.running = false := h.symm.trans (Bool.eq_false_iff.mpr hstopped)
    rw [Clock.lap_stopped hclock]
    rfl

/-- **An update applies the ticks that went by, and its cap loses nothing.** On every run that
starts and stops the timers only together with the clock, both run or neither does. An update then
reports the ticks that went by, capped at 255, and takes all of them off both counters, not below
zero. Apart from the clock, which counts on from now, nothing else changes: it leaves the machine
that as many single ticks leave, and also the one that the number of ticks it reports leaves. -/
theorem update_applies_due_ticks (options : Options)
    (hops : ∀ op ∈ ops, op.switchesTimersOnly = false) :
    let m := (new options).run ops
    (m.timers.running = true ↔ m.clock.running = true) ∧
    ∀ now,
      let due := (m.clock.lap now).1.toNat
      let after := (m.perform (.updateTimers now)).machine
      (m.clock.running = false → due = 0) ∧
      m.dueTicks now = min due 255 ∧
      after.timers.delay.toNat = m.timers.delay.toNat - due ∧
      after.timers.sound.toNat = m.timers.sound.toNat - due ∧
      after =
        { m with
          timers :=
            { m.timers with delay := after.timers.delay, sound := after.timers.sound }
          clock := (m.clock.lap now).2 } ∧
      after =
        { m.run (List.replicate due (.timers .tick)) with clock := (m.clock.lap now).2 } ∧
      after =
        { m.run (List.replicate (m.dueTicks now) (.timers .tick)) with
          clock := (m.clock.lap now).2 } := by
  intro m
  have hm : m.InStep := inStep_run options hops
  refine ⟨Bool.eq_iff_iff.mp hm, fun now => ?_⟩
  intro due after
  refine ⟨fun hstopped => ?_, rfl, hm.toNat_value_updateTimers now .delay,
    hm.toNat_value_updateTimers now .sound, ?_, ?_, ?_⟩
  · exact congrArg (fun lap => lap.1.toNat) (Clock.lap_stopped hstopped now)
  · exact congrArg (fun timers => { m with timers := timers, clock := (m.clock.lap now).2 })
      (m.timers.ticks_eq (m.dueTicks now))
  · rw [run_ticks]
    exact m.updateTimers_eq now
  · rw [run_ticks]
    rfl

/-- Five milliseconds on a clock of a megahertz are more ticks than a counter can count. -/
theorem update_applies_due_ticks_over_cap :
    let options := { Options.standard with timerFrequency := 1000000 }
    let ops : List Operation := [.load [] 0, .timers (.setDelay 200), .timers (.setSound 9)]
    let m := (new options).run ops
    (∀ op ∈ ops, op.switchesTimersOnly = false) ∧
      m.dueTicks 5000000 = 255 ∧ (m.updateTimers 5000000).timers.delay = 0 ∧
      m.updateTimers 5000000 =
        { m.run (List.replicate 5000 (.timers .tick)) with clock := (m.clock.lap 5000000).2 } := by
  intro options ops m
  have hops : ∀ op ∈ ops, op.switchesTimersOnly = false := by decide
  have hdue : (m.clock.lap 5000000).1.toNat = 5000 := by decide
  have hdelay : m.timers.delay.toNat = 200 := by decide
  obtain ⟨-, hupdate⟩ := update_applies_due_ticks options hops
  obtain ⟨-, hreported, hzero, -, -, hticks, -⟩ := hupdate 5000000
  rw [hdue] at hreported hzero hticks
  rw [hdelay] at hzero
  exact ⟨hops, hreported, UInt8.toNat_inj.mp hzero, hticks⟩

end Machine

end Chip8
