import Chip8.Hex
import Chip8.Layout
import Chip8.Nibble

/-!
# Opcodes

An opcode is a 16-bit word of a program, stored with its high byte first. Its four nibbles are
the *category*, `x`, `y` and `n`; the last two together are its byte, the last three its address.
Every field is defined for every word, whether the word's instruction uses it or not.

## Main definitions

* `Opcode` — a word
* `Opcode.ofBytes` — the word of two bytes
* `Opcode.ofNibbles`, `Opcode.ofByteForm`, `Opcode.ofAddressForm` — words built from their fields
* `Opcode.category`, `Opcode.x`, `Opcode.y`, `Opcode.n`, `Opcode.byte`, `Opcode.address`

## Main results

* `Opcode.ofNibbles_fields`, `Opcode.ofByteForm_fields`, `Opcode.ofAddressForm_fields` — a word is
  given back by its fields
-/

namespace Chip8

/-- A 16-bit word of a program. -/
structure Opcode where
  word : UInt16
  deriving DecidableEq, Repr

namespace Opcode

/-- The word of two bytes, the high one first. -/
def ofBytes (high low : UInt8) : Opcode := ⟨UInt16.ofNat (high.toNat * 0x100 + low.toNat)⟩

/-- The word of four nibbles, the highest first. -/
def ofNibbles (category x y n : Nibble) : Opcode :=
  ⟨UInt16.ofNat (category.val * 0x1000 + x.val * 0x100 + y.val * 0x10 + n.val)⟩

/-- The word of two nibbles and a byte. -/
def ofByteForm (category x : Nibble) (byte : UInt8) : Opcode :=
  ⟨UInt16.ofNat (category.val * 0x1000 + x.val * 0x100 + byte.toNat)⟩

/-- The word of a nibble and an address. -/
def ofAddressForm (category : Nibble) (address : Address) : Opcode :=
  ⟨UInt16.ofNat (category.val * 0x1000 + address.val)⟩

/-- The highest nibble, which selects the family of instructions. -/
def category (w : Opcode) : Nibble :=
  ⟨w.word.toNat / 0x1000, by have := w.word.toNat_lt; omega⟩

/-- The second nibble, mostly the number of a register. -/
def x (w : Opcode) : Nibble := ⟨w.word.toNat / 0x100 % 0x10, Nat.mod_lt _ (by decide)⟩

/-- The third nibble, mostly the number of a second register. -/
def y (w : Opcode) : Nibble := ⟨w.word.toNat / 0x10 % 0x10, Nat.mod_lt _ (by decide)⟩

def n (w : Opcode) : Nibble := ⟨w.word.toNat % 0x10, Nat.mod_lt _ (by decide)⟩

def byte (w : Opcode) : UInt8 := UInt8.ofNat (w.word.toNat % 0x100)

def highByte (w : Opcode) : UInt8 := UInt8.ofNat (w.word.toNat / 0x100)

def address (w : Opcode) : Address := ⟨w.word.toNat % 0x1000, Nat.mod_lt _ (by decide)⟩

/-- The register that the second nibble names. -/
def vx (w : Opcode) : Register := ⟨w.x⟩

/-- The register that the third nibble names. -/
def vy (w : Opcode) : Register := ⟨w.y⟩

/-- A word as it is written in listings: a dollar sign and four digits. -/
def text (w : Opcode) : String := "$" ++ Hex.text 4 w.word.toNat

/-! ### Fields of a word -/

theorem ext_toNat {v w : Opcode} (h : v.word.toNat = w.word.toNat) : v = w := by
  cases v; cases w; exact congrArg _ (UInt16.toNat_inj.mp h)

@[simp] theorem toNat_ofBytes (high low : UInt8) :
    (ofBytes high low).word.toNat = high.toNat * 0x100 + low.toNat := by
  have := high.toNat_lt
  have := low.toNat_lt
  simp only [ofBytes, UInt16.toNat_ofNat']
  omega

@[simp] theorem toNat_ofNibbles (category x y n : Nibble) :
    (ofNibbles category x y n).word.toNat =
      category.val * 0x1000 + x.val * 0x100 + y.val * 0x10 + n.val := by
  simp only [ofNibbles, UInt16.toNat_ofNat']
  omega

@[simp] theorem toNat_ofByteForm (category x : Nibble) (byte : UInt8) :
    (ofByteForm category x byte).word.toNat =
      category.val * 0x1000 + x.val * 0x100 + byte.toNat := by
  have := byte.toNat_lt
  simp only [ofByteForm, UInt16.toNat_ofNat']
  omega

@[simp] theorem toNat_ofAddressForm (category : Nibble) (address : Address) :
    (ofAddressForm category address).word.toNat = category.val * 0x1000 + address.val := by
  simp only [ofAddressForm, UInt16.toNat_ofNat']
  omega

@[simp] theorem val_category (w : Opcode) : w.category.val = w.word.toNat / 0x1000 := rfl

@[simp] theorem val_x (w : Opcode) : w.x.val = w.word.toNat / 0x100 % 0x10 := rfl

@[simp] theorem val_y (w : Opcode) : w.y.val = w.word.toNat / 0x10 % 0x10 := rfl

@[simp] theorem val_n (w : Opcode) : w.n.val = w.word.toNat % 0x10 := rfl

@[simp] theorem val_address (w : Opcode) : w.address.val = w.word.toNat % 0x1000 := rfl

@[simp] theorem toNat_byte (w : Opcode) : w.byte.toNat = w.word.toNat % 0x100 := by
  simp only [byte, UInt8.toNat_ofNat']
  omega

@[simp] theorem toNat_highByte (w : Opcode) : w.highByte.toNat = w.word.toNat / 0x100 := by
  have := w.word.toNat_lt
  simp only [highByte, UInt8.toNat_ofNat']
  omega

/-- A word is given back by its four nibbles. -/
theorem ofNibbles_fields (w : Opcode) : ofNibbles w.category w.x w.y w.n = w := by
  apply ext_toNat
  simp only [toNat_ofNibbles, val_category, val_x, val_y, val_n]
  omega

/-- A word is given back by its two high nibbles and its byte. -/
theorem ofByteForm_fields (w : Opcode) : ofByteForm w.category w.x w.byte = w := by
  apply ext_toNat
  simp only [toNat_ofByteForm, val_category, val_x, toNat_byte]
  omega

/-- A word is given back by its highest nibble and its address. -/
theorem ofAddressForm_fields (w : Opcode) : ofAddressForm w.category w.address = w := by
  apply ext_toNat
  simp only [toNat_ofAddressForm, val_category, val_address]
  omega

/-- A word is given back by its two bytes. -/
theorem ofBytes_fields (w : Opcode) : ofBytes w.highByte w.byte = w := by
  apply ext_toNat
  simp only [toNat_ofBytes, toNat_highByte, toNat_byte]
  omega

end Opcode

end Chip8
