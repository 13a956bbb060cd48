import Mathlib.Data.List.Induction
import Chip8.Timers

/-!
# The timers follow their history

Two counters are set and count down, and one switch lets ticks have an effect or not. What a counter
holds after any sequence of operations can be said without going through the sequence step by step:
it is what the counter was set to last, less the ticks that came since, of which only those count
that came while the timers were started. It stops at zero.

A history grows at its end, so the proofs go by induction on the last operation: what it does to the
timers is what it does to the three readings of the history.

## Main definitions

* `Timers.Counter`, `Timers.value` — the two counters, treated alike
* `Timers.run` — one operation after the other
* `Timers.lastGiven`, `Timers.started`, `Timers.countedTicks` — what a history says of a counter

## Main results

* `Timers.running_run`, `Timers.toNat_value_run` — the timers follow their history
* `Timers.value_run_without` — the operations on one counter do not matter to the other
* `Timers.values_follow_history` — all of it
-/

namespace Chip8.Timers

/-- One of the two values that count down. -/
inductive Counter where
  | delay
  | sound
  deriving DecidableEq, Repr

variable {c c' : Counter} {t t' : Timers} {op : Operation} {ops : List Operation} {b : UInt8}
  {k : Nat}

/-- What a counter holds. -/
def value (t : Timers) : Counter → UInt8
  | .delay => t.delay
  | .sound => t.sound

/-- The timers after one operation after the other. -/
def run (t : Timers) (ops : List Operation) : Timers := ops.foldl apply t

/-! ### What a history says -/

/-- What an operation sets a counter to, if it sets it. -/
def Operation.given? (c : Counter) : Operation → Option UInt8
  | .reset => some 0
  | .setDelay b => if c = .delay then some b else none
  | .setSound b => if c = .sound then some b else none
  | _ => none

/-- Whether later ticks have an effect, for the two operations that decide it. -/
def Operation.switch? : Operation → Option Bool
  | .start => some true
  | .stop => some false
  | _ => none

/-- What a counter was set to last; at first it is at zero. -/
def lastGiven (c : Counter) (ops : List Operation) : UInt8 :=
  (ops.filterMap (Operation.given? c)).getLastD 0

/-- Whether the last start or stop was a start; at first the timers are stopped. -/
def started (ops : List Operation) : Bool := (ops.filterMap Operation.switch?).getLastD false

/-- Whether operation `k` is a tick that counts for a counter: the timers were started before it,
and the counter is not set after it. -/
def counts (c : Counter) (ops : List Operation) (k : Nat) : Bool :=
  ops[k]? = some .tick && started (ops.take k) &&
    (ops.drop (k + 1)).all fun op => (op.given? c).isNone

/-- How many ticks count for a counter. -/
def countedTicks (c : Counter) (ops : List Operation) : Nat :=
  (List.range ops.length).countP (counts c ops)

/-! ### One operation more -/

theorem lastGiven_append_singleton (c : Counter) (ops : List Operation) (op : Operation) :
    lastGiven c (ops ++ [op]) = (op.given? c).getD (lastGiven c ops) := by
  rw [lastGiven, List.filterMap_append]
  cases hgiven : op.given? c with
  | none => simp [hgiven, lastGiven]
  | some b => simp [hgiven]

theorem started_append_singleton (ops : List Operation) (op : Operation) :
    started (ops ++ [op]) = op.switch?.getD (started ops) := by
  rw [started, List.filterMap_append]
  cases hswitch : op.switch? with
  | none => simp [hswitch, started]
  | some on => simp [hswitch]

/-- A tick that counted goes on counting unless the counter is set. -/
theorem counts_append_singleton (hk : k < ops.length) :
    counts c (ops ++ [op]) k = (counts c ops k && (op.given? c).isNone) := by
  rw [counts, List.getElem?_append_left hk, List.take_append_of_le_length (Nat.le_of_lt hk),
    List.drop_append_of_le_length hk, List.all_append, List.all_cons, List.all_nil, Bool.and_true,
    ← Bool.and_assoc, counts]

/-- Nothing comes after the last operation, so it counts if it is a tick of started timers. -/
theorem counts_last (c : Counter) (ops : List Operation) (op : Operation) :
    counts c (ops ++ [op]) ops.length = (decide (op = .tick) && started ops) := by
  simp [counts]

theorem countedTicks_append_of_given (h : op.given? c = some b) :
    countedTicks c (ops ++ [op]) = 0 := by
  have htick : op ≠ .tick := by
    rintro rfl
    cases h
  rw [countedTicks, List.countP_eq_zero]
  intro k hk
  rw [List.length_append, List.length_singleton, List.mem_range] at hk
  rcases Nat.lt_succ_iff_lt_or_eq.mp hk with hlt | rfl
  · rw [counts_append_singleton hlt, h, Option.isNone_some, Bool.and_false]
    exact Bool.false_ne_true
  · rw [counts_last, decide_eq_false htick, Bool.false_and]
    exact Bool.false_ne_true

theorem countedTicks_append_of_not_given (h : op.given? c = none) :
    countedTicks c (ops ++ [op]) =
      countedTicks c ops + if op = .tick ∧ started ops = true then 1 else 0 := by
  have hbefore : ∀ k ∈ List.range ops.length,
      counts c (ops ++ [op]) k = true ↔ counts c ops k = true := by
    intro k hk
    rw [counts_append_singleton (List.mem_range.mp hk), h, Option.isNone_none, Bool.and_true]
  rw [countedTicks, List.length_append, List.length_singleton, List.range_succ, List.countP_append,
    List.countP_congr hbefore, List.countP_singleton, counts_last, countedTicks]
  simp only [Bool.and_eq_true, decide_eq_true_eq]

theorem run_append_singleton (t : Timers) (ops : List Operation) (op : Operation) :
    t.run (ops ++ [op]) = (t.run ops).apply op :=
  List.foldl_append

/-! ### What operations do to a counter -/

theorem running_apply (t : Timers) (op : Operation) :
    (t.apply op).running = op.switch?.getD t.running := by
  cases op with
  | tick => exact t.running_tick
  | start | stop | reset | setDelay | setSound => rfl

theorem value_apply_of_given (h : op.given? c = some b) : (t.apply op).value c = b := by
  cases op with
  | start | stop | tick => cases h
  | reset =>
    obtain rfl := Option.some.inj h
    cases c with
    | delay | sound => rfl
  | setDelay d =>
    cases c with
    | delay => exact Option.some.inj h
    | sound => cases h
  | setSound d =>
    cases c with
    | delay => cases h
    | sound => exact Option.some.inj h

theorem value_apply_of_not_given (h : op.given? c = none) (htick : op ≠ .tick) :
    (t.apply op).value c = t.value c := by
  cases op with
  | tick => exact absurd rfl htick
  | reset => cases h
  | start | stop =>
    cases c with
    | delay | sound => rfl
  | setDelay d =>
    cases c with
    | delay => cases h
    | sound => rfl
  | setSound d =>
    cases c with
    | delay => rfl
    | sound => cases h

theorem toNat_value_tick (t : Timers) (c : Counter) :
    (t.tick.value c).toNat = if t.running then (t.value c).toNat - 1 else (t.value c).toNat := by
  cases c with
  | delay => exact t.toNat_delay_tick
  | sound => exact t.toNat_sound_tick

/-! ### The law -/

/-- New timers run exactly if the last start or stop was a start. -/
theorem running_run (ops : List Operation) : (run {} ops).running = started ops := by
  induction ops using List.reverseRecOn with
  | nil => rfl
  | append_singleton ops op ih =>
    rw [run_append_singleton, running_apply, started_append_singleton, ih]

/-- A counter holds what it was set to last, less the ticks that count since, and not below zero. -/
theorem toNat_value_run (c : Counter) (ops : List Operation) :
    ((run {} ops).value c).toNat = (lastGiven c ops).toNat - countedTicks c ops := by
  induction ops using List.reverseRecOn with
  | nil =>
    cases c with
    | delay | sound => rfl
  | append_singleton ops op ih =>
    rw [run_append_singleton, lastGiven_append_singleton]
    cases hgiven : op.given? c with
    | some b =>
      rw [value_apply_of_given hgiven, countedTicks_append_of_given hgiven, Option.getD_some,
        Nat.sub_zero]
    | none =>
      rw [countedTicks_append_of_not_given hgiven, Option.getD_none]
      by_cases htick : op = .tick
      · subst htick
        rw [apply, toNat_value_tick, running_run, ih]
        cases started ops with
        | true => rfl
        | false => rfl
      · rw [value_apply_of_not_given hgiven htick, ih, if_neg fun h => htick h.1, Nat.add_zero]

/-! ### One counter and the other -/

/-- Whether an operation sets this counter and not the other. -/
def Operation.setsOnly (c : Counter) : Operation → Bool
  | .setDelay _ => c = .delay
  | .setSound _ => c = .sound
  | _ => false

theorem given?_of_setsOnly (h : op.setsOnly c' = true) (hne : c ≠ c') : op.given? c = none := by
  cases op with
  | start | stop | reset | tick => cases h
  | setDelay d =>
    have hdelay : c' = .delay := of_decide_eq_true h
    exact if_neg fun e => hne (e.trans hdelay.symm)
  | setSound d =>
    have hsound : c' = .sound := of_decide_eq_true h
    exact if_neg fun e => hne (e.trans hsound.symm)

theorem switch?_of_setsOnly (h : op.setsOnly c = true) : op.switch? = none := by
  cases op with
  | start | stop => cases h
  | reset | tick | setDelay | setSound => rfl

/-- What an operation makes of a counter depends on the counter and the switch alone. -/
theorem value_apply_congr (hvalue : t.value c = t'.value c) (hrunning : t.running = t'.running)
    (op : Operation) : (t.apply op).value c = (t'.apply op).value c := by
  cases hgiven : op.given? c with
  | some b => rw [value_apply_of_given hgiven, value_apply_of_given hgiven]
  | none =>
    by_cases htick : op = .tick
    · subst htick
      apply UInt8.toNat_inj.mp
      rw [apply, apply, toNat_value_tick, toNat_value_tick, hvalue, hrunning]
    · rw [value_apply_of_not_given hgiven htick, value_apply_of_not_given hgiven htick, hvalue]

/-- Whoever sets a counter leaves the switch alone. -/
theorem started_without (c : Counter) (ops : List Operation) :
    started (ops.filter fun op => !op.setsOnly c) = started ops := by
  have hswitch : (fun op : Operation => if !op.setsOnly c then op.switch? else none) =
      Operation.switch? := by
    funext op
    cases hsets : op.setsOnly c with
    | false => rfl
    | true => exact (switch?_of_setsOnly hsets).symm
  rw [started, List.filterMap_filter, hswitch, started]

/-- Without the operations that set another counter only, a counter holds the same. -/
theorem value_run_without (hne : c ≠ c') (ops : List Operation) :
    (run {} (ops.filter fun op => !op.setsOnly c')).value c = (run {} ops).value c := by
  induction ops using List.reverseRecOn with
  | nil => rfl
  | append_singleton ops op ih =>
    rw [List.filter_append, run_append_singleton]
    cases hother : op.setsOnly c' with
    | true =>
      have htick : op ≠ .tick := by
        rintro rfl
        cases hother
      have hkept := value_apply_of_not_given (t := run {} ops) (given?_of_setsOnly hother hne) htick
      rw [List.filter_cons_of_neg (by simp [hother]), List.filter_nil, List.append_nil, ih, hkept]
    | false =>
      have hrunning : (run {} (ops.filter fun op => !op.setsOnly c')).running =
          (run {} ops).running := by
        rw [running_run, running_run, started_without]
      rw [List.filter_cons_of_pos (by simp [hother]), List.filter_nil, run_append_singleton]
      exact value_apply_congr ih hrunning op

/-- **The timers follow their history.** After any operations on new timers a counter holds what it
was set to last, by an operation of its own or a reset, less the ticks since then that came while
the last start or stop was a start; it stops at zero, and is at zero at first. What is done to the
other counter does not matter. A tone plays exactly while the sound counter is not at zero, and a
reset does not change whether the timers run. -/
theorem values_follow_history (ops : List Operation) :
    let t := run {} ops
    t.delay.toNat = (lastGiven .delay ops).toNat - countedTicks .delay ops ∧
    t.sound.toNat = (lastGiven .sound ops).toNat - countedTicks .sound ops ∧
    t.delay = (run {} (ops.filter fun op => !op.setsOnly .sound)).delay ∧
    t.sound = (run {} (ops.filter fun op => !op.setsOnly .delay)).sound ∧
    (t.beeps = true ↔ t.sound ≠ 0) ∧
    t.running = started ops ∧
    t.reset.running = t.running := by
  intro t
  have hdelay : (run {} (ops.filter fun op => !op.setsOnly .sound)).delay = t.delay :=
    value_run_without (c := .delay) (by decide) ops
  have hsound : (run {} (ops.filter fun op => !op.setsOnly .delay)).sound = t.sound :=
    value_run_without (c := .sound) (by decide) ops
  exact ⟨toNat_value_run .delay ops, toNat_value_run .sound ops, hdelay.symm, hsound.symm,
    bne_iff_ne, running_run ops, rfl⟩

/-- Of four ticks two count: one came before the timers were started, one while they were
stopped. -/
example :
    countedTicks .delay [.setDelay 9, .tick, .start, .tick, .stop, .tick, .start, .tick] = 2 := by
  decide

end Chip8.Timers
