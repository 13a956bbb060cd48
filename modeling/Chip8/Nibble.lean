import Chip8.Hex

/-!
# Four-bit numbers

Registers and keys are numbered from 0 to 15 and written with one hexadecimal digit. Half a byte
is such a number too.

## Main definitions

* `Nibble` — a number below sixteen
* `Nibble.low` — the low half of a byte
* `Register`, `Key` — what nibbles name
-/

namespace Chip8

/-- A number below sixteen. -/
abbrev Nibble := Fin 16

/-- There are nibbles, so numerals can stand for them. The zero is the one that `Fin` uses. -/
instance Nibble.neZero : @NeZero Nat .ofOfNat0 16 := ⟨by decide⟩

namespace Nibble

def low (b : UInt8) : Nibble := ⟨b.toNat % 16, Nat.mod_lt _ (by decide)⟩

/-- A number as a nibble, if it is one. -/
def ofInt? (n : Int) : Option Nibble :=
  if h : n.toNat < 16 then if 0 ≤ n then some ⟨n.toNat, h⟩ else none else none

def text (k : Nibble) : String := Hex.text 1 k.val

@[simp] theorem val_low (b : UInt8) : (low b).val = b.toNat % 16 := rfl

theorem ofInt?_eq_some_iff {n : Int} {k : Nibble} : ofInt? n = some k ↔ n = k.val := by
  have hk := k.isLt
  unfold ofInt?
  split
  · split
    · simp only [Option.some.injEq, Fin.ext_iff]
      omega
    · simp only [reduceCtorEq, false_iff]
      omega
  · simp only [reduceCtorEq, false_iff]
    omega

end Nibble

/-- One of the general registers `V0` to `VF`. -/
structure Register where
  index : Nibble
  deriving DecidableEq, Repr

namespace Register

/-- The first register, whose value `JMP V0` adds to its operand. -/
def v0 : Register := ⟨0⟩

/-- The last register, which receives the flag of arithmetic and drawing. -/
def vF : Register := ⟨15⟩

/-- The register that the low half of a byte names. -/
def ofByte (b : UInt8) : Register := ⟨Nibble.low b⟩

/-- The register of a number, if there is one. -/
def ofInt? (n : Int) : Option Register := (Nibble.ofInt? n).map Register.mk

def all : List Register := (List.finRange 16).map Register.mk

/-- The registers from `V0` to the given one. -/
def upTo (r : Register) : List Register := all.take (r.index.val + 1)

def name (r : Register) : String := "V" ++ r.index.text

theorem length_upTo (r : Register) : r.upTo.length = r.index.val + 1 := by
  have := r.index.isLt
  simp only [upTo, all, List.length_take, List.length_map, List.length_finRange]
  omega

end Register

/-- One of the sixteen keys. -/
structure Key where
  code : Nibble
  deriving DecidableEq, Repr

namespace Key

/-- The key of a number, if there is one. -/
def ofInt? (n : Int) : Option Key := (Nibble.ofInt? n).map Key.mk

/-- The key whose code is the given byte, if there is one. -/
def ofByte? (b : UInt8) : Option Key := ofInt? b.toNat

def all : List Key := (List.finRange 16).map Key.mk

/-- The code of a key as a byte. -/
def toByte (k : Key) : UInt8 := UInt8.ofNat k.code.val

def name (k : Key) : String := "K" ++ k.code.text

@[simp] theorem toNat_toByte (k : Key) : k.toByte.toNat = k.code.val := by
  have hk := k.code.isLt
  rw [toByte, UInt8.toNat_ofNat']
  omega

theorem mem_all (k : Key) : k ∈ all := List.mem_map.mpr ⟨k.code, List.mem_finRange _, rfl⟩

/-- All keys are listed in the order of their codes. -/
theorem pairwise_all : all.Pairwise fun j k => j.code < k.code :=
  List.pairwise_map.mpr (List.pairwise_lt_finRange 16)

theorem ofByte?_eq_some_iff {b : UInt8} {k : Key} : ofByte? b = some k ↔ b.toNat = k.code.val := by
  unfold ofByte? ofInt?
  rw [Option.map_eq_some_iff]
  constructor
  · rintro ⟨n, hn, rfl⟩
    exact Int.ofNat_inj.mp (Nibble.ofInt?_eq_some_iff.mp hn)
  · intro h
    exact ⟨k.code, Nibble.ofInt?_eq_some_iff.mpr (by omega), rfl⟩

end Key

end Chip8
