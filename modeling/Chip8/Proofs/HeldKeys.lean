import Mathlib.Data.List.Induction
import Chip8.Keypad

/-!
# The keypad follows its history

Sixteen keys share one word of sixteen bits, and a player presses and releases them in any order,
also keys that are held already and keys that are not held. A key is held exactly if the last thing
done to it was a press: nothing that is done to other keys matters to it. Two players who do not
touch each other's keys may therefore take turns as they like, the keypad ends up the same.

The keys are separate because an operation changes its own key and no other. What a history says of
a key is then the last of the operations on that key, and an interleaving of two histories on
separate keys has the same operations on each key as one history behind the other.

## Main definitions

* `Keypad.run` — one operation after the other
* `Keypad.opsOn`, `Keypad.last?` — the operations on a key, and the last of them
* `Keypad.Interleaving` — two histories that take turns
* `Keypad.Separate` — histories that have no key in common

## Main results

* `Keypad.isHeld_run`, `Keypad.isHeld_run_released_iff` — which keys are held after any operations
* `Keypad.isHeld_run_congr` — a key depends on the operations on that key alone
* `Keypad.Interleaving.run_eq` — separate histories can take turns in any way
* `Keypad.held_follows_history` — all of it
-/

namespace Chip8.Keypad

variable {p p' : Keypad} {k : Key} {op : Operation} {ops ops' as bs cs : List Operation}

/-- The key that an operation is done to. -/
def Operation.key : Operation → Key
  | .press k => k
  | .release k => k

/-- The keypad after one operation after the other. -/
def run (p : Keypad) (ops : List Operation) : Keypad := ops.foldl apply p

/-! ### What a history says -/

/-- The operations on a key. -/
def opsOn (k : Key) (ops : List Operation) : List Operation := ops.filter fun op => op.key = k

/-- The last operation on a key, if there was one. -/
def last? (k : Key) (ops : List Operation) : Option Operation := (opsOn k ops).getLast?

/-- Two histories that take turns: each keeps its order. -/
inductive Interleaving : List Operation → List Operation → List Operation → Prop where
  | nil : Interleaving [] [] []
  | left {a : Operation} {as bs cs : List Operation} (rest : Interleaving as bs cs) :
    Interleaving (a :: as) bs (a :: cs)
  | right {b : Operation} {as bs cs : List Operation} (rest : Interleaving as bs cs) :
    Interleaving as (b :: bs) (b :: cs)

/-- Histories that have no key in common. -/
def Separate (as bs : List Operation) : Prop := ∀ a ∈ as, ∀ b ∈ bs, a.key ≠ b.key

instance (as bs : List Operation) : Decidable (Separate as bs) :=
  inferInstanceAs (Decidable (∀ a ∈ as, ∀ b ∈ bs, a.key ≠ b.key))

/-! ### Operations on one key -/

theorem opsOn_append (k : Key) (ops ops' : List Operation) :
    opsOn k (ops ++ ops') = opsOn k ops ++ opsOn k ops' :=
  List.filter_append ..

theorem opsOn_cons_of_key_eq (h : op.key = k) (ops : List Operation) :
    opsOn k (op :: ops) = op :: opsOn k ops :=
  List.filter_cons_of_pos (decide_eq_true h)

theorem opsOn_cons_of_key_ne (h : op.key ≠ k) (ops : List Operation) :
    opsOn k (op :: ops) = opsOn k ops :=
  List.filter_cons_of_neg fun hkey => h (of_decide_eq_true hkey)

theorem last?_append_of_key_eq (h : op.key = k) : last? k (ops ++ [op]) = some op := by
  rw [last?, opsOn_append, opsOn_cons_of_key_eq h]
  exact List.getLast?_concat

theorem last?_append_of_key_ne (h : op.key ≠ k) : last? k (ops ++ [op]) = last? k ops := by
  have hnone : opsOn k [] = [] := rfl
  rw [last?, opsOn_append, opsOn_cons_of_key_ne h, hnone, List.append_nil, last?]

/-! ### One operation more -/

theorem run_append_singleton (p : Keypad) (ops : List Operation) (op : Operation) :
    p.run (ops ++ [op]) = (p.run ops).apply op :=
  List.foldl_append

/-- Behind an operation on it, a key is held exactly if that was a press. -/
theorem isHeld_apply_of_key_eq (h : op.key = k) :
    (p.apply op).isHeld k = decide (op = .press k) := by
  cases op with
  | press j =>
    obtain rfl : j = k := h
    rw [apply, isHeld_press, decide_eq_true rfl, decide_eq_true rfl, Bool.true_or]
  | release j =>
    obtain rfl : j = k := h
    rw [apply, isHeld_release, decide_eq_true rfl, Bool.not_true, Bool.false_and]
    rfl

/-- An operation on one key leaves the others as they are. -/
theorem isHeld_apply_of_key_ne (h : op.key ≠ k) : (p.apply op).isHeld k = p.isHeld k := by
  cases op with
  | press j =>
    have hne : k ≠ j := Ne.symm h
    rw [apply, isHeld_press, decide_eq_false hne, Bool.false_or]
  | release j =>
    have hne : k ≠ j := Ne.symm h
    rw [apply, isHeld_release, decide_eq_false hne, Bool.not_false, Bool.true_and]

/-! ### Which keys are held -/

/-- A key without operations stays as it was; otherwise the last operation on it decides. -/
theorem isHeld_run (p : Keypad) (k : Key) (ops : List Operation) :
    (p.run ops).isHeld k = (last? k ops).elim (p.isHeld k) fun op => decide (op = .press k) := by
  induction ops using List.reverseRecOn with
  | nil => rfl
  | append_singleton ops op ih =>
    rw [run_append_singleton]
    by_cases h : op.key = k
    · rw [isHeld_apply_of_key_eq h, last?_append_of_key_eq h, Option.elim_some]
    · rw [isHeld_apply_of_key_ne h, last?_append_of_key_ne h, ih]

/-- A key of a new keypad is held exactly if the last operation on it was a press. -/
theorem isHeld_run_released_iff :
    (released.run ops).isHeld k = true ↔ last? k ops = some (.press k) := by
  rw [isHeld_run, isHeld_released]
  cases last? k ops with
  | none => simp only [Option.elim_none, Bool.false_eq_true, reduceCtorEq]
  | some op => simp only [Option.elim_some, decide_eq_true_eq, Option.some.injEq]

/-- A key depends on how it was at first and on the operations on it alone. -/
theorem isHeld_run_congr (hheld : p.isHeld k = p'.isHeld k) (hops : opsOn k ops = opsOn k ops') :
    (p.run ops).isHeld k = (p'.run ops').isHeld k := by
  rw [isHeld_run, isHeld_run, last?, last?, hops, hheld]

/-- A key is held exactly if its bit is left of the word when all others are taken out. -/
theorem isHeld_iff_and_ne_zero :
    p.isHeld k = true ↔ p.mask &&& 1#16 <<< k.code.val ≠ 0#16 := by
  have hbit : ∀ n : Nibble, BitVec.twoPow 16 n.val ≠ 0#16 := by decide
  rw [← BitVec.twoPow_eq, BitVec.and_twoPow, isHeld]
  split
  · next hset => exact iff_of_true hset (hbit k.code)
  · next hclear => exact iff_of_false hclear fun h => h rfl

/-! ### Taking turns -/

theorem Separate.opsOn_key_eq_nil (h : Separate as bs) {b : Operation} (hb : b ∈ bs) :
    opsOn b.key as = [] :=
  List.filter_eq_nil_iff.mpr fun a ha hkey => h a ha b hb (of_decide_eq_true hkey)

/-- On a given key only one of two separate histories has operations, so they stay in order. -/
theorem Interleaving.opsOn_eq (h : Interleaving as bs cs) (hseparate : Separate as bs) (k : Key) :
    opsOn k cs = opsOn k as ++ opsOn k bs := by
  induction h with
  | nil => rfl
  | @left a as bs cs rest ih =>
    obtain ⟨-, hrest⟩ := List.forall_mem_cons.mp hseparate
    by_cases hkey : a.key = k
    · rw [opsOn_cons_of_key_eq hkey, opsOn_cons_of_key_eq hkey, ih hrest, List.cons_append]
    · rw [opsOn_cons_of_key_ne hkey, opsOn_cons_of_key_ne hkey, ih hrest]
  | @right b as bs cs rest ih =>
    have hrest : Separate as bs := fun a ha b' hb' => hseparate a ha b' (List.mem_cons_of_mem b hb')
    by_cases hkey : b.key = k
    · have hnone : opsOn k as = [] := hkey ▸ hseparate.opsOn_key_eq_nil List.mem_cons_self
      rw [opsOn_cons_of_key_eq hkey, opsOn_cons_of_key_eq hkey, ih hrest, hnone, List.nil_append,
        List.nil_append]
    · rw [opsOn_cons_of_key_ne hkey, opsOn_cons_of_key_ne hkey, ih hrest]

/-- Separate histories lead to the same keypad as one behind the other, however they take turns. -/
theorem Interleaving.run_eq (h : Interleaving as bs cs) (hseparate : Separate as bs)
    (p : Keypad) : p.run cs = p.run (as ++ bs) := by
  refine ext fun k => isHeld_run_congr rfl ?_
  rw [h.opsOn_eq hseparate, opsOn_append]

/-! ### All of it -/

/-- **The keypad follows its history.** After any operations on a new keypad, the bit of a key is
set exactly if the last operation on that key was a press, and that is what the keypad answers for
the key; the lowest key it answers is the lowest of those held, and it answers none exactly if none
is held. Whatever two histories that have no key in common do from there, the keypad ends up the
same however they take turns. A key is the same after all histories that have the same operations
on that key. -/
theorem held_follows_history (ops : List Operation) :
    let p := released.run ops
    (∀ k, p.mask &&& 1#16 <<< k.code.val ≠ 0#16 ↔ last? k ops = some (.press k)) ∧
    (∀ k, p.isHeld k = true ↔ last? k ops = some (.press k)) ∧
    (p.first? = none ↔ ∀ k, last? k ops ≠ some (.press k)) ∧
    (∀ k, p.first? = some k ↔
      last? k ops = some (.press k) ∧ ∀ j, last? j ops = some (.press j) → k.code ≤ j.code) ∧
    (∀ as bs cs cs', Separate as bs → Interleaving as bs cs → Interleaving as bs cs' →
      p.run cs = p.run cs') ∧
    ∀ k ops', opsOn k ops' = opsOn k ops → (released.run ops').isHeld k = p.isHeld k := by
  intro p
  have hheld : ∀ k, p.isHeld k = true ↔ last? k ops = some (.press k) :=
    fun k => isHeld_run_released_iff
  refine ⟨fun k => isHeld_iff_and_ne_zero.symm.trans (hheld k), hheld, ?_, fun k => ?_,
    fun as bs cs cs' hseparate hcs hcs' => ?_, fun k ops' hops => isHeld_run_congr rfl hops⟩
  · rw [first?_eq_none_iff]
    simp only [ne_eq, ← hheld, Bool.not_eq_true]
  · rw [first?_eq_some_iff]
    simp only [hheld]
  · rw [hcs.run_eq hseparate, hcs'.run_eq hseparate]

/-- While a key is held, two players with keys of their own take turns in two ways; and the same key
among operations on others. -/
theorem held_follows_history_in_turns :
    let as : List Operation := [.press ⟨3⟩, .release ⟨3⟩]
    let bs : List Operation := [.release ⟨12⟩, .press ⟨7⟩]
    let cs : List Operation := [.press ⟨3⟩, .release ⟨12⟩, .press ⟨7⟩, .release ⟨3⟩]
    let p := released.run [.press ⟨5⟩]
    Separate as bs ∧ Interleaving as bs cs ∧ p.run cs = p.run (bs ++ as) ∧
      (p.run cs).held = [⟨5⟩, ⟨7⟩] ∧
      (released.run [.release ⟨3⟩, .press ⟨5⟩, .press ⟨7⟩]).isHeld ⟨5⟩ = p.isHeld ⟨5⟩ := by
  intro as bs cs p
  have hseparate : Separate as bs := by decide
  have hcs : Interleaving as bs cs := .left (.right (.right (.left .nil)))
  have hbehind : Interleaving as bs (bs ++ as) := .right (.right (.left (.left .nil)))
  obtain ⟨-, -, -, -, hturns, hkey⟩ := held_follows_history [.press ⟨5⟩]
  exact ⟨hseparate, hcs, hturns as bs cs (bs ++ as) hseparate hcs hbehind, by decide,
    hkey ⟨5⟩ [.release ⟨3⟩, .press ⟨5⟩, .press ⟨7⟩] rfl⟩

end Chip8.Keypad
