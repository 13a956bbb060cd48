import Chip8.Instruction.Encoding

/-!
# Encoding and decoding are inverse

Every word is the encoding of the instruction that it decodes to, with the bits that the decoder
ignores as its filler; and every encoding decodes to the instruction that it was made of. Two words
therefore decode to the same instruction exactly if they differ in ignored bits only.

## Main definitions

* `Instruction.Encodable` — an instruction is what some word decodes to
* `Instruction.Encodes` — a word is an encoding of an instruction
* `Opcode.Alike` — two words are equal or differ in ignored bits only

## Main results

* `Instruction.encodes_decode` — a word encodes its instruction
* `Instruction.decode_encode` — an encoding decodes to its instruction
* `Instruction.decode_eq_decode_iff` — alike words are those that decode to the same instruction
-/

namespace Chip8

namespace Opcode

/-! ### The fields of words built from fields -/

section

variable (c x y n : Nibble) (b : UInt8) (a : Address)

@[simp] theorem category_ofNibbles : (ofNibbles c x y n).category = c := by
  apply Fin.ext
  rw [val_category, toNat_ofNibbles]
  omega

@[simp] theorem vx_ofNibbles : (ofNibbles c x y n).vx = ⟨x⟩ := by
  apply congrArg Register.mk
  apply Fin.ext
  rw [val_x, toNat_ofNibbles]
  omega

@[simp] theorem vy_ofNibbles : (ofNibbles c x y n).vy = ⟨y⟩ := by
  apply congrArg Register.mk
  apply Fin.ext
  rw [val_y, toNat_ofNibbles]
  omega

@[simp] theorem n_ofNibbles : (ofNibbles c x y n).n = n := by
  apply Fin.ext
  rw [val_n, toNat_ofNibbles]
  omega

@[simp] theorem category_ofByteForm : (ofByteForm c x b).category = c := by
  have hb := b.toNat_lt
  apply Fin.ext
  rw [val_category, toNat_ofByteForm]
  omega

@[simp] theorem vx_ofByteForm : (ofByteForm c x b).vx = ⟨x⟩ := by
  have hb := b.toNat_lt
  apply congrArg Register.mk
  apply Fin.ext
  rw [val_x, toNat_ofByteForm]
  omega

@[simp] theorem byte_ofByteForm : (ofByteForm c x b).byte = b := by
  have hb := b.toNat_lt
  apply UInt8.toNat_inj.mp
  rw [toNat_byte, toNat_ofByteForm]
  omega

@[simp] theorem category_ofAddressForm : (ofAddressForm c a).category = c := by
  apply Fin.ext
  rw [val_category, toNat_ofAddressForm]
  omega

@[simp] theorem address_ofAddressForm : (ofAddressForm c a).address = a := by
  apply Fin.ext
  rw [val_address, toNat_ofAddressForm]
  omega

theorem toNat_byte_ofAddressForm : (ofAddressForm c a).byte.toNat = a.val % 0x100 := by
  rw [toNat_byte, toNat_ofAddressForm]
  omega

end

/-! ### Words given back by some of their fields -/

variable {w : Opcode} {c n : Nibble} {b : UInt8}

theorem ofNibbles_of_fields (hc : w.category = c) (hn : w.n.val = n.val) :
    ofNibbles c w.x w.y n = w := by
  obtain rfl := hc
  obtain rfl := Fin.ext hn
  exact w.ofNibbles_fields

theorem ofByteForm_of_fields (hc : w.category = c) (hb : w.byte.toNat = b.toNat) :
    ofByteForm c w.x b = w := by
  obtain rfl := hc
  obtain rfl := UInt8.toNat_inj.mp hb
  exact w.ofByteForm_fields

theorem ofAddressForm_of_fields (hc : w.category = c) : ofAddressForm c w.address = w := by
  obtain rfl := hc
  exact w.ofAddressForm_fields

end Opcode

namespace Instruction

open Opcode

variable {v w : Opcode} {i : Instruction}

/-! ### The four families with several kinds of instructions -/

theorem decode_of_system (h : w.category = 0x0) : decode w = decodeSystem w := by
  rw [decode, h]
  rfl

theorem decode_of_arithmetic (h : w.category = 0x8) : decode w = decodeArithmetic w := by
  rw [decode, h]
  rfl

theorem decode_of_key (h : w.category = 0xE) : decode w = decodeKey w := by
  rw [decode, h]
  rfl

theorem decode_of_transfer (h : w.category = 0xF) : decode w = decodeTransfer w := by
  rw [decode, h]
  rfl

theorem decodeSystem_of_ne (h : w.byte.toNat ≠ 0xE0) (h' : w.byte.toNat ≠ 0xEE) :
    decodeSystem w = machineCode w.address := by
  unfold decodeSystem
  split
  · contradiction
  · contradiction
  · rfl

/-! ### Encodings decode to their instruction -/

/-- Whether an instruction is what some word decodes to: the words of `CLS` and `RET` are no calls
into machine code, and a word that has a meaning is not unknown. -/
def Encodable : Instruction → Prop
  | machineCode a => a.val % 0x100 ≠ 0xE0 ∧ a.val % 0x100 ≠ 0xEE
  | unknown w => decode w = unknown w
  | _ => True

theorem decode_machineCode {a : Address} (h : (machineCode a).Encodable) :
    decode (.ofAddressForm 0x0 a) = machineCode a := by
  obtain ⟨hclear, hret⟩ := h
  rw [← toNat_byte_ofAddressForm 0x0] at hclear hret
  rw [decode_of_system (category_ofAddressForm _ _), decodeSystem_of_ne hclear hret,
    address_ofAddressForm]

/-! Where an instruction has a filler, its words are taken one by one. -/

theorem decode_clear (d : Nibble) : decode (.ofByteForm 0x0 d 0xE0) = clear := by
  rw [decode_of_system (category_ofByteForm _ _ _), decodeSystem, byte_ofByteForm]
  rfl

theorem decode_ret (d : Nibble) : decode (.ofByteForm 0x0 d 0xEE) = ret := by
  rw [decode_of_system (category_ofByteForm _ _ _), decodeSystem, byte_ofByteForm]
  rfl

theorem decode_same (x y d : Nibble) :
    decode (.ofNibbles 0x5 x y d) = skip (.same ⟨x⟩ ⟨y⟩) := by
  rw [decode, category_ofNibbles, vx_ofNibbles, vy_ofNibbles]
  rfl

theorem decode_differ (x y d : Nibble) :
    decode (.ofNibbles 0x9 x y d) = skip (.differ ⟨x⟩ ⟨y⟩) := by
  rw [decode, category_ofNibbles, vx_ofNibbles, vy_ofNibbles]
  rfl

theorem decode_shift (s : Shift) (x d : Nibble) :
    decode (.ofNibbles 0x8 x d s.code) = shift s ⟨x⟩ := by
  rw [decode_of_arithmetic (category_ofNibbles _ _ _ _), decodeArithmetic, n_ofNibbles,
    vx_ofNibbles]
  cases s with
  | _ => rfl

/-- An encoding decodes to the instruction that it was made of, whatever fills the ignored bits. -/
theorem decode_encode (h : i.Encodable) (d : i.Filler) : decode (encode i d) = i := by
  cases i with
  | clear => exact decode_clear d
  | ret => exact decode_ret d
  | machineCode a => exact decode_machineCode h
  | unknown w => exact h
  | skip c =>
    cases c with
    | same x y => exact decode_same x.index y.index d
    | differ x y => exact decode_differ x.index y.index d
    | isByte | notByte =>
      rw [encode, decode, category_ofByteForm, vx_ofByteForm, byte_ofByteForm]
      rfl
    | held | notHeld =>
      rw [encode, decode_of_key (category_ofByteForm _ _ _), decodeKey, byte_ofByteForm,
        vx_ofByteForm]
      rfl
  | binary op x y =>
    rw [encode, decode_of_arithmetic (category_ofNibbles _ _ _ _), decodeArithmetic, n_ofNibbles,
      vx_ofNibbles, vy_ofNibbles]
    cases op with
    | _ => rfl
  | shift s x => exact decode_shift s x.index d
  | jump | call | setIndex | jumpOffset =>
    rw [encode, decode, category_ofAddressForm, address_ofAddressForm]
    rfl
  | setByte | addByte | random =>
    rw [encode, decode, category_ofByteForm, vx_ofByteForm, byte_ofByteForm]
    rfl
  | draw =>
    rw [encode, decode, category_ofNibbles, vx_ofNibbles, vy_ofNibbles, n_ofNibbles]
    rfl
  | addIndex | pointGlyph | readDelay | awaitKey | setDelay | setSound | storeDigits | store |
    restore =>
    rw [encode, decode_of_transfer (category_ofByteForm _ _ _), decodeTransfer, byte_ofByteForm,
      vx_ofByteForm]
    rfl

/-! ### Words encode their instruction -/

/-- A word is the encoding of an instruction with some filler. -/
def Encodes (i : Instruction) (w : Opcode) : Prop := ∃ d, encode i d = w

theorem encodes_decodeSystem (h : w.category = 0x0) : (decodeSystem w).Encodes w := by
  unfold decodeSystem
  split
  · next hbyte => exact ⟨w.x, ofByteForm_of_fields h hbyte⟩
  · next hbyte => exact ⟨w.x, ofByteForm_of_fields h hbyte⟩
  · exact ⟨(), ofAddressForm_of_fields h⟩

theorem encodes_decodeArithmetic (h : w.category = 0x8) : (decodeArithmetic w).Encodes w := by
  unfold decodeArithmetic
  split
  case h_7 hn => exact ⟨w.y, ofNibbles_of_fields h hn⟩
  case h_9 hn => exact ⟨w.y, ofNibbles_of_fields h hn⟩
  case h_10 => exact ⟨(), rfl⟩
  all_goals next hn => exact ⟨(), ofNibbles_of_fields h hn⟩

theorem encodes_decodeKey (h : w.category = 0xE) : (decodeKey w).Encodes w := by
  unfold decodeKey
  split
  · next hbyte => exact ⟨(), ofByteForm_of_fields h hbyte⟩
  · next hbyte => exact ⟨(), ofByteForm_of_fields h hbyte⟩
  · exact ⟨(), rfl⟩

theorem encodes_decodeTransfer (h : w.category = 0xF) : (decodeTransfer w).Encodes w := by
  unfold decodeTransfer
  split
  case h_10 => exact ⟨(), rfl⟩
  all_goals next hbyte => exact ⟨(), ofByteForm_of_fields h hbyte⟩

/-- Every word is an encoding of the instruction that it decodes to. -/
theorem encodes_decode (w : Opcode) : (decode w).Encodes w := by
  unfold decode
  split
  case h_1 h => exact encodes_decodeSystem (Fin.ext h)
  case h_2 h => exact ⟨(), ofAddressForm_of_fields (Fin.ext h)⟩
  case h_3 h => exact ⟨(), ofAddressForm_of_fields (Fin.ext h)⟩
  case h_4 h => exact ⟨(), ofByteForm_of_fields (Fin.ext h) rfl⟩
  case h_5 h => exact ⟨(), ofByteForm_of_fields (Fin.ext h) rfl⟩
  case h_6 h => exact ⟨w.n, ofNibbles_of_fields (Fin.ext h) rfl⟩
  case h_7 h => exact ⟨(), ofByteForm_of_fields (Fin.ext h) rfl⟩
  case h_8 h => exact ⟨(), ofByteForm_of_fields (Fin.ext h) rfl⟩
  case h_9 h => exact encodes_decodeArithmetic (Fin.ext h)
  case h_10 h => exact ⟨w.n, ofNibbles_of_fields (Fin.ext h) rfl⟩
  case h_11 h => exact ⟨(), ofAddressForm_of_fields (Fin.ext h)⟩
  case h_12 h => exact ⟨(), ofAddressForm_of_fields (Fin.ext h)⟩
  case h_13 h => exact ⟨(), ofByteForm_of_fields (Fin.ext h) rfl⟩
  case h_14 h => exact ⟨(), ofNibbles_of_fields (Fin.ext h) rfl⟩
  case h_15 h => exact encodes_decodeKey (Fin.ext h)
  case h_16 =>
    have hF : w.category.val = 0xF := by
      have hlt := w.category.isLt
      simp only [imp_false] at *
      omega
    exact encodes_decodeTransfer (Fin.ext hF)

theorem address_of_decode_eq_machineCode {a : Address} (h : decode w = machineCode a) :
    w.address = a := by
  obtain ⟨d, hw⟩ : (machineCode a).Encodes w := h ▸ encodes_decode w
  rw [← hw]
  exact address_ofAddressForm 0x0 a

/-- A word without a meaning decodes to itself. -/
theorem eq_of_decode_eq_unknown (h : decode w = unknown v) : w = v := by
  obtain ⟨d, hw⟩ : (unknown v).Encodes w := h ▸ encodes_decode w
  exact hw.symm

end Instruction

/-! ### Alike words -/

/-- Two words are equal, or they differ only in bits that the decoder ignores. -/
inductive Opcode.Alike : Opcode → Opcode → Prop where
  | refl (w : Opcode) : Alike w w
  /-- Words of the form `0?E0`. -/
  | clear (d d' : Nibble) : Alike (.ofByteForm 0x0 d 0xE0) (.ofByteForm 0x0 d' 0xE0)
  /-- Words of the form `0?EE`. -/
  | ret (d d' : Nibble) : Alike (.ofByteForm 0x0 d 0xEE) (.ofByteForm 0x0 d' 0xEE)
  /-- Words of the form `5xy?`. -/
  | same (x y d d' : Nibble) : Alike (.ofNibbles 0x5 x y d) (.ofNibbles 0x5 x y d')
  /-- Words of the form `9xy?`. -/
  | differ (x y d d' : Nibble) : Alike (.ofNibbles 0x9 x y d) (.ofNibbles 0x9 x y d')
  /-- Words of the form `8x?6`. -/
  | shiftRight (x d d' : Nibble) : Alike (.ofNibbles 0x8 x d 0x6) (.ofNibbles 0x8 x d' 0x6)
  /-- Words of the form `8x?E`. -/
  | shiftLeft (x d d' : Nibble) : Alike (.ofNibbles 0x8 x d 0xE) (.ofNibbles 0x8 x d' 0xE)

namespace Instruction

theorem alike_encode (i : Instruction) (d d' : i.Filler) : (encode i d).Alike (encode i d') := by
  cases i with
  | clear => exact .clear d d'
  | ret => exact .ret d d'
  | skip c =>
    cases c with
    | same x y => exact .same x.index y.index d d'
    | differ x y => exact .differ x.index y.index d d'
    | _ => exact .refl _
  | shift s x =>
    cases s with
    | right => exact .shiftRight x.index d d'
    | left => exact .shiftLeft x.index d d'
  | _ => exact .refl _

/-- Two words decode to the same instruction exactly if they are alike. -/
theorem decode_eq_decode_iff {v w : Opcode} : decode v = decode w ↔ v.Alike w := by
  constructor
  · intro h
    obtain ⟨d, hv⟩ := encodes_decode v
    obtain ⟨d', hw⟩ : (decode v).Encodes w := h ▸ encodes_decode w
    rw [← hv, ← hw]
    exact alike_encode (decode v) d d'
  · intro h
    cases h with
    | refl => rfl
    | clear d d' => rw [decode_clear, decode_clear]
    | ret d d' => rw [decode_ret, decode_ret]
    | same x y d d' => rw [decode_same, decode_same]
    | differ x y d d' => rw [decode_differ, decode_differ]
    | shiftRight x d d' => exact (decode_shift .right x d).trans (decode_shift .right x d').symm
    | shiftLeft x d d' => exact (decode_shift .left x d).trans (decode_shift .left x d').symm

end Instruction

instance (v w : Opcode) : Decidable (v.Alike w) :=
  decidable_of_iff _ Instruction.decode_eq_decode_iff

end Chip8
