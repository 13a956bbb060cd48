import Chip8.Proofs.Transfers

/-!
# Where jumps lead

Jumps, calls and jumps with an offset fault if their target lies below the program area. The check
looks at the target as it is, and the fetch takes it modulo 4096. The two agree on every address
that a word can name. Only a jump with an offset can pass the end of memory, and such a target is
let through although its fetch starts again at the bottom of memory, in the interpreter area.

## Main definitions

* `Machine.jumpTarget?` — where an instruction is to jump, as an exact sum
* `Machine.fetchAddress` — where the next instruction is fetched from

## Main results

* `Machine.pc_execute_of_jump` — a jump that does not fault goes to its exact target
* `Machine.fetch_after_jump` — it ends in the program area unless it passes the end of memory
* `Machine.jump_past_end_enters_interpreter_area` — a jump that does
-/

namespace Chip8.Machine

variable {m : Machine} {random : UInt8} {i : Instruction} {target : UInt16}
  {stack : List UInt16} {t : Nat}

/-- Where an instruction is to jump: the address in its word, plus `V0` for a jump with an
offset. -/
def jumpTarget? (m : Machine) : Instruction → Option Nat
  | .jump target | .call target => some target.val
  | .jumpOffset base => some (base.val + (m.reg .v0).toNat)
  | _ => none

/-- Where the first byte of the next instruction is fetched from. -/
def fetchAddress (m : Machine) : Address := .wrap m.pc

theorem highByte_opcode (m : Machine) : m.opcode.highByte = m.memory.read m.fetchAddress := by
  apply UInt8.toNat_inj.mp
  rw [Opcode.toNat_highByte, opcode, Opcode.toNat_ofBytes, fetchAddress]
  have hlow := (m.memory.read (.wrap (m.pc + 1))).toNat_lt
  omega

/-! ### Jumps that do not fault -/

theorem jumpTo_of_ok (hok : (m.jumpTo target stack).fault = none) :
    Layout.programStart ≤ target.toNat ∧ (m.jumpTo target stack).machine.pc = target := by
  rcases m.jumpTo_cases target stack with ⟨-, hfail⟩ | ⟨hle, hgo⟩
  · rw [hfail] at hok
    cases hok
  · rw [hgo]
    exact ⟨hle, rfl⟩

theorem call_of_ok (hok : (m.call target).fault = none) :
    Layout.programStart ≤ target.toNat ∧ (m.call target).machine.pc = target := by
  rcases m.call_cases target with ⟨-, hfail⟩ | ⟨-, -, hfail⟩ | ⟨-, hle, hgo⟩
  · rw [hfail] at hok
    cases hok
  · rw [hfail] at hok
    cases hok
  · rw [hgo]
    exact ⟨hle, rfl⟩

/-- A jump that does not fault goes to its exact target, which does not lie below the program
area. -/
theorem pc_execute_of_jump (ht : m.jumpTarget? i = some t)
    (hok : (m.execute random i).fault = none) :
    Layout.programStart ≤ t ∧ (m.execute random i).machine.pc.toNat = t := by
  cases i with
  | jump target =>
    obtain rfl := Option.some.inj ht
    obtain ⟨hle, hpc⟩ := jumpTo_of_ok hok
    rw [Address.toNat_pointer] at hle
    exact ⟨hle, (congrArg UInt16.toNat hpc).trans target.toNat_pointer⟩
  | call target =>
    obtain rfl := Option.some.inj ht
    obtain ⟨hle, hpc⟩ := call_of_ok hok
    rw [Address.toNat_pointer] at hle
    exact ⟨hle, (congrArg UInt16.toNat hpc).trans target.toNat_pointer⟩
  | jumpOffset base =>
    obtain rfl := Option.some.inj ht
    obtain ⟨hle, hpc⟩ := jumpTo_of_ok hok
    rw [toNat_offset] at hle
    exact ⟨hle, (congrArg UInt16.toNat hpc).trans (toNat_offset base _)⟩
  | _ => cases ht

/-- A target passes the end of memory by less than the size of the interpreter area. -/
theorem jumpTarget?_lt (ht : m.jumpTarget? i = some t) : t < 0x1000 + Layout.programStart := by
  have hv0 := (m.reg .v0).toNat_lt
  cases i with
  | jump target | call target | jumpOffset target =>
    have htarget := target.isLt
    obtain rfl := Option.some.inj ht
    simp only [Layout.programStart]
    omega
  | _ => cases ht

/-- **Jumps stay out of the interpreter area as long as they stay in memory.** A jump, a call or a
jump with an offset that does not fault has a target in or behind the program area and goes there.
The next instruction is fetched from the target modulo 4096, and that lies in the program area if
and only if the target does not pass the end of memory. -/
theorem fetch_after_jump (ht : m.jumpTarget? i = some t)
    (hok : (m.execute random i).fault = none) :
    let after := (m.execute random i).machine
    0x200 ≤ t ∧ after.pc.toNat = t ∧ after.fetchAddress.val = t % 0x1000 ∧
      (0x200 ≤ after.fetchAddress.val ↔ t < 0x1000) := by
  intro after
  obtain ⟨hle, hpc⟩ := pc_execute_of_jump ht hok
  have hlt := jumpTarget?_lt ht
  have hfetch : after.fetchAddress.val = t % 0x1000 := congrArg (· % 0x1000) hpc
  refine ⟨hle, hpc, hfetch, ?_⟩
  rw [hfetch]
  simp only [Layout.programStart] at hle hlt
  omega

/-- The farthest jump that stays in memory. -/
theorem fetch_after_jump_to_last_byte :
    let m := (new .standard).run [.setRegister .v0 1]
    let i : Instruction := .jumpOffset 0xFFE
    m.jumpTarget? i = some 0xFFF ∧ (m.execute 0 i).fault = none ∧
      0x200 ≤ (m.execute 0 i).machine.fetchAddress.val := by
  intro m i
  have ht : m.jumpTarget? i = some 0xFFF := by decide
  have hok : (m.execute 0 i).fault = none := by decide
  obtain ⟨-, -, -, hfetch⟩ := fetch_after_jump ht hok
  exact ⟨ht, hok, hfetch.mpr (by decide)⟩

/-- The word `$BFFF` jumps out of memory with one in `V0`. The check lets it through, and the next
instruction is fetched from the bottom of the interpreter area. -/
theorem jump_past_end_enters_interpreter_area :
    ¬ ∀ m : Machine, m.Reachable → ∀ (w : Opcode) (random : UInt8),
      (m.jumpTarget? (.decode w)).isSome = true →
      (m.execute random (.decode w)).fault = none →
        0x200 ≤ (m.execute random (.decode w)).machine.fetchAddress.val := by
  intro hinside
  let m := (new .standard).run [.setRegister .v0 1]
  have hreachable : m.Reachable := ⟨_, _, rfl⟩
  have hfetch := hinside m hreachable ⟨0xBFFF⟩ 0 (by decide) (by decide)
  exact absurd hfetch (by decide)

end Chip8.Machine
