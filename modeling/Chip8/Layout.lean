/-!
# The map of memory

The machine has 4096 bytes. The lowest 512 belong to the interpreter and hold the built-in font;
the rest is the program area.

## Main definitions

* `Address` — the place of a byte in memory
* `Address.wrap` — where a 16-bit pointer points, past the end of memory from the start again
* `Layout` — sizes and fixed places
-/

namespace Chip8

namespace Layout

/-- Where programs are loaded. -/
def programStart : Nat := 0x200

/-- How many bytes of a program fit into memory. -/
def programCapacity : Nat := 0xE00

/-- Where the font starts. -/
def fontStart : Nat := 0x50

/-- How many calls may be open at a time. -/
def stackDepth : Nat := 16

end Layout

/-- The place of a byte in memory, and the 12-bit operand of an instruction. -/
abbrev Address := Fin 0x1000

namespace Address

/-- The byte that a 16-bit pointer points to: past the end, memory starts again. -/
def wrap (pointer : UInt16) : Address := ⟨pointer.toNat % 0x1000, Nat.mod_lt _ (by decide)⟩

/-- An address as a 16-bit pointer. -/
def pointer (a : Address) : UInt16 := UInt16.ofNat a.val

@[simp] theorem val_wrap (pointer : UInt16) : (wrap pointer).val = pointer.toNat % 0x1000 := rfl

@[simp] theorem toNat_pointer (a : Address) : a.pointer.toNat = a.val := by
  have := a.isLt
  simp only [pointer, UInt16.toNat_ofNat']
  omega

@[simp] theorem wrap_pointer (a : Address) : wrap a.pointer = a := by
  apply Fin.ext
  have := a.isLt
  simp only [val_wrap, toNat_pointer]
  omega

end Address

end Chip8
