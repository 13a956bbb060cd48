import Chip8.Layout
import Chip8.Nibble

/-!
# The built-in font

The interpreter area holds a glyph for each hexadecimal digit, four pixels wide and five rows
high. A row is a byte; its left four bits are the pixels.

## Main definitions

* `Font.glyphs` — the sixteen glyphs
* `Font.bytes` — the glyphs one behind the other
* `Font.address` — where the glyph of a digit starts
* `Font.byteAt` — what a new machine holds at an address
-/

namespace Chip8.Font

def glyphHeight : Nat := 5

/-- The glyphs of the digits in order. -/
def glyphs : Vector (Vector UInt8 5) 16 := #v[
  #v[0xF0, 0x90, 0x90, 0x90, 0xF0],
  #v[0x20, 0x60, 0x20, 0x20, 0x70],
  #v[0xF0, 0x10, 0xF0, 0x80, 0xF0],
  #v[0xF0, 0x10, 0xF0, 0x10, 0xF0],
  #v[0x90, 0x90, 0xF0, 0x10, 0x10],
  #v[0xF0, 0x80, 0xF0, 0x10, 0xF0],
  #v[0xF0, 0x80, 0xF0, 0x90, 0xF0],
  #v[0xF0, 0x10, 0x20, 0x40, 0x40],
  #v[0xF0, 0x90, 0xF0, 0x90, 0xF0],
  #v[0xF0, 0x90, 0xF0, 0x10, 0xF0],
  #v[0xF0, 0x90, 0xF0, 0x90, 0x90],
  #v[0xE0, 0x90, 0xE0, 0x90, 0xE0],
  #v[0xF0, 0x80, 0x80, 0x80, 0xF0],
  #v[0xE0, 0x90, 0x90, 0x90, 0xE0],
  #v[0xF0, 0x80, 0xF0, 0x80, 0xF0],
  #v[0xF0, 0x80, 0xF0, 0x80, 0x80]]

/-- The rows of a digit's glyph, from top to bottom. -/
def glyph (d : Nibble) : List UInt8 := glyphs[d.val].toList

def bytes : List UInt8 := (List.finRange 16).flatMap glyph

/-- Where the glyph of a digit starts; for larger numbers, where it would start. -/
def address (b : UInt8) : UInt16 := UInt16.ofNat (Layout.fontStart + glyphHeight * b.toNat)

/-- What a new machine holds at an address: the font, and zeros around it. -/
def byteAt (a : Address) : UInt8 :=
  if Layout.fontStart ≤ a.val then bytes.getD (a.val - Layout.fontStart) 0 else 0

/-- Row `r` of the glyph of `d` lies `r` bytes behind the glyph's start. -/
theorem byteAt_glyph (d : Nibble) (r : Fin 5) :
    byteAt (.wrap (address (UInt8.ofNat d.val) + UInt16.ofNat r.val)) = glyphs[d.val][r.val] := by
  revert d r
  decide +kernel

end Chip8.Font
