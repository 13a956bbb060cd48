import Mathlib.Data.List.Infix
import Chip8.Proofs.Transfers

/-!
# The discipline of subroutines

Whatever a program does, its calls and returns are properly nested. A call puts its return address
on top of the call stack; until that address is taken off again, nothing below it changes; and only
a return takes it off, and goes on there.

The call stack is a list with the innermost return address first, so the part of it that a call
leaves untouched is a suffix.

## Main definitions

* `Machine.StackChange` — what an operation can do to the call stack
* `Machine.StaysDeeper` — a run in which the call stack never gets as short as a given depth

## Main results

* `Machine.stackChange_perform` — every operation but a load does one of three things to the stack
* `Machine.Reachable.length_stack_le` — no more calls are open than the stack has places
* `Machine.suffix_stack_run` — a run that stays deeper keeps what lies below
* `Machine.call_nests` — what follows a call is properly nested in it
-/

namespace Chip8.Machine

variable {m after : Machine} {random : UInt8} {i? : Option Instruction} {back : UInt16}
  {target : Address} {op : Operation} {ops : List Operation} {base : List UInt16}

/-! ### One operation -/

/-- What an operation that executes `i?` does to the call stack, with `back` the address behind
the instruction. -/
inductive StackChange (i? : Option Instruction) (back : UInt16) (m after : Machine) : Prop where
  | kept (stack : after.stack = m.stack)
  | called (target : Address) (call : i? = some (.call target))
      (free : m.stack.length ≠ Layout.stackDepth) (stack : after.stack = back :: m.stack)
  | returned (ret : i? = some .ret) (stack : m.stack = after.pc :: after.stack)

theorem StackChange.of_stack_eq {before : Machine} (h : StackChange i? back before after)
    (hstack : before.stack = m.stack) : StackChange i? back m after := by
  cases h with
  | kept stack => exact .kept (stack.trans hstack)
  | called target call free stack =>
    rw [hstack] at free stack
    exact .called target call free stack
  | returned ret stack => exact .returned ret (hstack.symm.trans stack)

theorem stackChange_jumpTo (i? : Option Instruction) (back target : UInt16) :
    StackChange i? back m (m.jumpTo target m.stack).machine := by
  rcases m.jumpTo_cases target m.stack with ⟨-, hfail⟩ | ⟨-, hgo⟩
  · rw [hfail]
    exact .kept rfl
  · rw [hgo]
    exact .kept rfl

theorem stackChange_call (m : Machine) (target : Address) :
    StackChange (some (.call target)) m.pc m (m.call target.pointer).machine := by
  rcases m.call_cases target.pointer with ⟨-, hfail⟩ | ⟨-, -, hfail⟩ | ⟨hfree, -, hgo⟩
  · rw [hfail]
    exact .kept rfl
  · rw [hfail]
    exact .kept rfl
  · rw [hgo]
    exact .called target rfl hfree rfl

theorem stackChange_ret (m : Machine) : StackChange (some .ret) m.pc m m.ret.machine := by
  rcases m.ret_cases with ⟨-, hfail⟩ | ⟨back, rest, hstack, hgo⟩
  · rw [hfail]
    exact .kept rfl
  · rw [hgo]
    exact .returned rfl hstack

theorem stackChange_execute (m : Machine) (random : UInt8) (i : Instruction) :
    StackChange (some i) m.pc m (m.execute random i).machine := by
  cases htransfers : i.transfers with
  | false => exact .kept (undisturbed_execute htransfers random).stack
  | true =>
    cases i with
    | ret => exact stackChange_ret m
    | jump target => exact stackChange_jumpTo _ _ _
    | call target => exact stackChange_call m target
    | jumpOffset offset => exact stackChange_jumpTo _ _ _
    | _ => exact Bool.noConfusion htransfers

theorem stackChange_cycle (m : Machine) (random : UInt8) :
    StackChange (m.executed? (.cycle random)) (m.pc + 2) m (m.cycle random).machine := by
  rcases m.cycle_cases random with
    ⟨-, hcycle⟩ | ⟨hrun, -, -, hmachine⟩ | ⟨f, -, -, -, hmachine⟩
  · rw [hcycle]
    exact .kept rfl
  · have hexecuted : m.executed? (.cycle random) = some m.instruction :=
      executed?_cycle_eq_some_iff.mpr ⟨hrun, rfl⟩
    have hchange := stackChange_execute m.fetched random m.instruction
    rw [hmachine, hexecuted]
    exact hchange.of_stack_eq rfl
  · rw [hmachine]
    exact .kept rfl

/-- Every operation but a load leaves the call stack as it is, or is a call that pushes its return
address, or a return that pops one and goes on there. -/
theorem stackChange_perform (hload : op.isLoad = false) :
    StackChange (m.executed? op) (m.behind op) m (m.perform op).machine := by
  cases op with
  | load => exact Bool.noConfusion hload
  | cycle random => exact stackChange_cycle m random
  | execute i random => exact stackChange_execute m random i
  | _ => exact .kept rfl

/-! ### The depth of the stack -/

theorem StackChange.length_le (h : StackChange i? back m after)
    (hm : m.stack.length ≤ Layout.stackDepth) : after.stack.length ≤ Layout.stackDepth := by
  cases h with
  | kept stack => rwa [stack]
  | called target call free stack =>
    rw [stack, List.length_cons]
    omega
  | returned ret stack =>
    rw [stack, List.length_cons] at hm
    omega

/-- No more calls are ever open than the call stack has places. -/
theorem Reachable.length_stack_le (h : m.Reachable) : m.stack.length ≤ Layout.stackDepth := by
  refine h.invariant (P := fun m => m.stack.length ≤ Layout.stackDepth)
    (fun options => Nat.zero_le _) fun m op hm => ?_
  cases hload : op.isLoad with
  | false => exact (stackChange_perform hload).length_le hm
  | true =>
    cases op with
    | load program now =>
      rw [perform, stack_load]
      exact Nat.zero_le _
    | _ => exact Bool.noConfusion hload

/-! ### What lies below a call -/

/-- The call stack is deeper than `depth` before the operations and after each of them. -/
def StaysDeeper (m : Machine) (depth : Nat) (ops : List Operation) : Prop :=
  ∀ done, done <+: ops → depth < (m.run done).stack.length

instance (m : Machine) (depth : Nat) (ops : List Operation) : Decidable (m.StaysDeeper depth ops) :=
  decidable_of_iff (∀ done ∈ ops.inits, depth < (m.run done).stack.length) <| by
    simp only [List.mem_inits, StaysDeeper]

theorem StaysDeeper.lt_length {depth : Nat} (h : m.StaysDeeper depth ops) :
    depth < m.stack.length :=
  h [] List.nil_prefix

theorem StaysDeeper.tail {depth : Nat} (h : m.StaysDeeper depth (op :: ops)) :
    (m.perform op).machine.StaysDeeper depth ops :=
  fun done hdone => h (op :: done) (List.cons_prefix_cons.mpr ⟨rfl, hdone⟩)

/-- With a return address on the stack, an operation keeps that address and what lies below it, or
it is the return that takes the address off. -/
theorem StackChange.suffix_or_returned {address : UInt16} (h : StackChange i? address m after)
    (hm : back :: base <:+ m.stack) :
    back :: base <:+ after.stack ∨ i? = some .ret ∧ after.stack = base ∧ after.pc = back := by
  cases h with
  | kept stack =>
    rw [stack]
    exact Or.inl hm
  | called target call free stack =>
    rw [stack]
    exact Or.inl (hm.trans (List.suffix_cons _ _))
  | returned ret stack =>
    rw [stack] at hm
    -- the return takes off the address in question, or one above it
    rcases List.suffix_cons_iff.mp hm with htop | hbelow
    · obtain ⟨hpc, hrest⟩ := List.cons_eq_cons.mp htop
      exact Or.inr ⟨ret, hrest.symm, hpc.symm⟩
    · exact Or.inl hbelow

/-- A run that stays deeper than what lies below a return address keeps the address and all of
it. -/
theorem suffix_stack_run (hloads : ∀ op ∈ ops, op.isLoad = false)
    (hdeep : m.StaysDeeper base.length ops) (hm : back :: base <:+ m.stack) :
    back :: base <:+ (m.run ops).stack := by
  induction ops generalizing m with
  | nil => exact hm
  | cons op ops ih =>
    obtain ⟨hop, hops⟩ := List.forall_mem_cons.mp hloads
    rw [run_cons]
    refine ih hops hdeep.tail ?_
    rcases (stackChange_perform hop).suffix_or_returned hm with hkept | ⟨-, hstack, -⟩
    · exact hkept
    · -- the address cannot be gone yet: the stack would be too short
      have hlt := hdeep.tail.lt_length
      rw [hstack] at hlt
      exact absurd hlt (Nat.lt_irrefl _)

/-! ### Calls -/

theorem stack_call_of_ok (hok : (m.call target.pointer).fault = none) :
    (m.call target.pointer).machine.stack = m.pc :: m.stack := by
  rcases m.call_cases target.pointer with ⟨-, hfail⟩ | ⟨-, -, hfail⟩ | ⟨-, -, hgo⟩
  · rw [hfail] at hok
    cases hok
  · rw [hfail] at hok
    cases hok
  · rw [hgo]

/-- A call that succeeds puts the address behind it on top of the stack. -/
theorem stack_perform_of_call (hcall : m.executed? op = some (.call target))
    (hok : (m.perform op).fault = none) :
    (m.perform op).machine.stack = m.behind op :: m.stack := by
  cases op with
  | cycle random =>
    obtain ⟨hrun, hinstruction⟩ := executed?_cycle_eq_some_iff.mp hcall
    have hexecuted : (m.fetched.execute random m.instruction).fault = none :=
      (fault_cycle hrun random).symm.trans hok
    rw [perform, cycle_eq_of_ok hrun hexecuted]
    -- the call is executed on the machine after the fetch, which already points behind it
    rw [hinstruction] at hexecuted ⊢
    exact stack_call_of_ok hexecuted
  | execute i random =>
    obtain rfl : i = .call target := Option.some.inj hcall
    exact stack_call_of_ok hok
  | _ => cases hcall

/-- **Calls and returns are properly nested.** After a call that succeeds, whatever is done without
loading a program: as long as the stack has stayed deeper than at the call, the return address and
all that lay below it are still there; and what first makes the stack as short again is a return,
which leaves the stack as it was at the call and goes on at the return address. -/
theorem call_nests (hcall : m.executed? op = some (.call target))
    (hok : (m.perform op).fault = none) (hloads : ∀ o ∈ ops, o.isLoad = false)
    (hdeep : (m.perform op).machine.StaysDeeper m.stack.length ops) :
    (m.perform op).machine.stack = m.behind op :: m.stack ∧
    m.behind op :: m.stack <:+ ((m.perform op).machine.run ops).stack ∧
    ∀ last : Operation, last.isLoad = false →
      let inside := (m.perform op).machine.run ops
      (inside.perform last).machine.stack.length ≤ m.stack.length →
        inside.executed? last = some .ret ∧ (inside.perform last).machine.stack = m.stack ∧
          (inside.perform last).machine.pc = m.behind op := by
  have hstack := stack_perform_of_call hcall hok
  have hinside : m.behind op :: m.stack <:+ ((m.perform op).machine.run ops).stack := by
    refine suffix_stack_run hloads hdeep ?_
    rw [hstack]
  refine ⟨hstack, hinside, ?_⟩
  intro last hlast inside hshort
  rcases (stackChange_perform hlast).suffix_or_returned hinside with hkept | hreturned
  · have hlength := hkept.length_le
    rw [List.length_cons] at hlength
    exact absurd hshort (Nat.not_le.mpr hlength)
  · exact hreturned

/-- Nesting at a call in whose body another call is made, a jump faults, and the inner call is
returned from. -/
theorem call_nests_around_inner_call :
    let m := new .standard
    let op : Operation := .execute (.call 0x300) 0
    let body : List Operation :=
      [.execute (.call 0x400) 0, .execute (.jump 0x100) 0, .execute .ret 0]
    let inside := (m.perform op).machine.run body
    (m.executed? op = some (.call 0x300) ∧ (m.perform op).fault = none ∧
      (∀ o ∈ body, o.isLoad = false) ∧
      (m.perform op).machine.StaysDeeper m.stack.length body) ∧
    [0x200] <:+ inside.stack ∧ (inside.perform (.execute .ret 0)).machine.pc = 0x200 := by
  intro m op body inside
  have hcall : m.executed? op = some (.call 0x300) := rfl
  have hok : (m.perform op).fault = none := by decide
  have hloads : ∀ o ∈ body, o.isLoad = false := by decide
  have hdeep : (m.perform op).machine.StaysDeeper m.stack.length body := by decide
  obtain ⟨-, hinside, hlast⟩ := call_nests hcall hok hloads hdeep
  have hshort : (inside.perform (.execute .ret 0)).machine.stack.length ≤ m.stack.length := by
    decide
  obtain ⟨-, -, hpc⟩ := hlast (.execute .ret 0) rfl hshort
  exact ⟨⟨hcall, hok, hloads, hdeep⟩, hinside, hpc⟩

end Chip8.Machine
