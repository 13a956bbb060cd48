import Mathlib.Data.List.Basic
import Chip8.Proofs.Encoding
import Chip8.Proofs.Rows

/-!
# The patterns of words

The words of an instruction follow a pattern: some bits say which instruction it is, some hold its
operands, and some may be anything. Every word follows exactly one pattern, with one choice of
operands and one filling of the free bits. So a program can be put together from instructions and
fillings, and taking it apart gives the same instructions back, in their order and at the offsets
where they were put.

A few instructions have no word of their own, and no program is put together from them: calls into
machine code at addresses whose word is one of `CLS` or `RET`, and words said to be unknown that
some pattern has a meaning for.

## Main definitions

* `Instruction.InFormat` — an instruction has words of its own
* `Code` — an instruction in the format with a filling
* `Code.word` — its word
* `Code.assemble` — the bytes of a program

## Main results

* `Instruction.inFormat_iff_encodable` — the instructions in the format are those that words
  decode to
* `Code.word_bijective` — every word is the word of exactly one code
* `Code.rows_assemble` — the rows of a program that was put together
* `Code.assemble_inverts_decoding` — encoding and decoding are inverse
-/

namespace Chip8

namespace Opcode

/-! ### Words that differ in one nibble -/

theorem injective_ofByteForm (c : Nibble) (b : UInt8) :
    Function.Injective fun x => ofByteForm c x b := by
  intro x x' h
  have hx := congrArg Opcode.vx h
  simp only [vx_ofByteForm] at hx
  exact congrArg Register.index hx

theorem injective_ofNibbles_y (c x n : Nibble) :
    Function.Injective fun y => ofNibbles c x y n := by
  intro y y' h
  have hy := congrArg Opcode.vy h
  simp only [vy_ofNibbles] at hy
  exact congrArg Register.index hy

theorem injective_ofNibbles_n (c x y : Nibble) : Function.Injective (ofNibbles c x y) := by
  intro n n' h
  have hn := congrArg Opcode.n h
  rwa [n_ofNibbles, n_ofNibbles] at hn

end Opcode

namespace Instruction

open Opcode

variable {i : Instruction} {w : Opcode}

/-! ### Instructions in the format -/

/-- Whether an instruction has words of its own: a call into machine code must not read as `CLS` or
`RET`, and a word is unknown only if no pattern fits it. -/
def InFormat : Instruction → Prop
  | machineCode a => a.val % 0x100 ≠ 0xE0 ∧ a.val % 0x100 ≠ 0xEE
  | unknown w => ∀ i : Instruction, i.isUnknown = false → ¬ i.Encodes w
  | _ => True

theorem isUnknown_decodeSystem (w : Opcode) : (decodeSystem w).isUnknown = false := by
  unfold decodeSystem
  split
  · rfl
  · rfl
  · rfl

/-- The words of an instruction with a meaning have a meaning, though it may be another one. -/
theorem isUnknown_decode_encode (h : i.isUnknown = false) (d : i.Filler) :
    (decode (encode i d)).isUnknown = false := by
  by_cases hencodable : i.Encodable
  · rwa [decode_encode hencodable]
  · cases i with
    | machineCode a =>
      -- the word may be one of `CLS` or `RET`, but all words of this family have a meaning
      rw [encode, decode_of_system (category_ofAddressForm _ _)]
      exact isUnknown_decodeSystem _
    | unknown w => exact Bool.noConfusion h
    | _ => exact absurd trivial hencodable

theorem decode_eq_unknown_iff :
    decode w = unknown w ↔ ∀ i : Instruction, i.isUnknown = false → ¬ i.Encodes w := by
  constructor
  · rintro h i hmeaning ⟨d, rfl⟩
    have hdecode := isUnknown_decode_encode hmeaning d
    rw [h] at hdecode
    cases hdecode
  · -- of all instructions that the word could decode to, only itself as unknown is left
    intro h
    cases hdecode : decode w with
    | unknown v => rw [eq_of_decode_eq_unknown hdecode]
    | _ => exact absurd (encodes_decode w) (h (decode w) (by rw [hdecode]; rfl))

/-- The instructions in the format are those that some word decodes to. -/
theorem inFormat_iff_encodable : i.InFormat ↔ i.Encodable := by
  cases i with
  | unknown w => exact decode_eq_unknown_iff.symm
  | _ => exact Iff.rfl

/-- Calls into machine code are read from words with another byte than `CLS` and `RET`. -/
theorem encodable_of_decode_eq_machineCode {a : Address} (h : decode w = machineCode a) :
    (machineCode a).Encodable := by
  obtain ⟨d, hw⟩ : (machineCode a).Encodes w := h ▸ encodes_decode w
  have hword : ofAddressForm 0x0 a = w := hw
  have hsystem : decodeSystem w = machineCode a := by
    rw [← h, decode_of_system]
    rw [← hword, category_ofAddressForm]
  have hbyte : w.byte.toNat = a.val % 0x100 := by
    rw [← hword, toNat_byte_ofAddressForm]
  rw [decodeSystem, hbyte] at hsystem
  constructor
  · intro hclear
    rw [hclear] at hsystem
    cases hsystem
  · intro hret
    rw [hret] at hsystem
    cases hsystem

/-- What a word decodes to is in the format. -/
theorem inFormat_decode (w : Opcode) : (decode w).InFormat := by
  rw [inFormat_iff_encodable]
  cases hdecode : decode w with
  | machineCode a => exact encodable_of_decode_eq_machineCode hdecode
  | unknown v =>
    obtain rfl := eq_of_decode_eq_unknown hdecode
    exact hdecode
  | _ => trivial

/-! ### Fillings -/

/-- Different fillings make different words. -/
theorem encode_injective (i : Instruction) : Function.Injective (encode i) := by
  cases i with
  | clear => exact injective_ofByteForm 0x0 0xE0
  | ret => exact injective_ofByteForm 0x0 0xEE
  | shift s x => exact injective_ofNibbles_y 0x8 x.index s.code
  | skip c =>
    cases c with
    | same x y => exact injective_ofNibbles_n 0x5 x.index y.index
    | differ x y => exact injective_ofNibbles_n 0x9 x.index y.index
    | _ => exact fun _ _ _ => rfl
  | _ => exact fun _ _ _ => rfl

/-- Every word is the word of its instruction with exactly one filling. -/
theorem existsUnique_encode_decode (w : Opcode) : ∃! d, encode (decode w) d = w := by
  obtain ⟨d, hd⟩ := encodes_decode w
  exact ⟨d, hd, fun d' hd' => encode_injective _ (hd'.trans hd.symm)⟩

end Instruction

/-! ### Programs put together -/

/-- An instruction in the format, with what fills the bits that its words leave free. -/
structure Code where
  instruction : Instruction
  inFormat : instruction.InFormat
  filler : instruction.Filler

namespace Code

open Disassembly

def word (c : Code) : Opcode := c.instruction.encode c.filler

/-- The bytes of a program, one word behind the other. -/
def assemble (program : List Code) : List UInt8 := program.flatMap fun c => c.word.bytes

theorem decode_word (c : Code) : .decode c.word = c.instruction :=
  Instruction.decode_encode (Instruction.inFormat_iff_encodable.mp c.inFormat) c.filler

theorem word_injective : Function.Injective word := by
  intro c c' h
  have hinstruction : c.instruction = c'.instruction := by
    rw [← c.decode_word, h, c'.decode_word]
  obtain ⟨i, hi, d⟩ := c
  obtain ⟨i', hi', d'⟩ := c'
  obtain rfl : i = i' := hinstruction
  obtain rfl : d = d' := i.encode_injective h
  rfl

/-- Every word is the word of exactly one code. -/
theorem word_bijective : Function.Bijective word := by
  refine ⟨word_injective, fun w => ?_⟩
  obtain ⟨d, hd⟩ := Instruction.encodes_decode w
  exact ⟨⟨.decode w, Instruction.inFormat_decode w, d⟩, hd⟩

theorem words_assemble (program : List Code) : words (assemble program) = program.map word := by
  rw [assemble, ← List.flatMap_map, words_flatMap_bytes]

/-- The rows of a program that was put together. -/
theorem rows_assemble (program : List Code) :
    rows (assemble program) = ((program.take maxWords).map word).mapIdx row := by
  rw [rows, words_take, words_assemble, List.map_take]

theorem statement_row_word (k : Nat) (c : Code) :
    (row k c.word).statement = c.instruction.statement :=
  congrArg Instruction.statement c.decode_word

/-- A program that was put together is disassembled to its instructions, each where it was put. -/
theorem statements_assemble {program : List Code} (h : program.length ≤ maxWords) :
    (rows (assemble program)).map (fun r => (r.offset.toNat, r.statement)) =
      program.mapIdx fun k c => (2 * k, c.instruction.statement) := by
  rw [rows_assemble, List.take_of_length_le h]
  apply List.ext_getElem
  · simp only [List.length_map, List.length_mapIdx]
  · intro k _ hk
    rw [List.length_mapIdx] at hk
    simp only [List.getElem_map, List.getElem_mapIdx]
    rw [toNat_offset_row (Nat.lt_of_lt_of_le hk h), statement_row_word]

/-- **Encoding and decoding are inverse.** A program put together from instructions in the format,
whatever fills their free bits, is disassembled to these instructions, the one with the number `k`
at the offset `2 * k`. Every word decodes to an instruction in the format and is the word of that
instruction with exactly one filling. So every word is the word of exactly one instruction in the
format with exactly one filling. -/
theorem assemble_inverts_decoding :
    (∀ program : List Code, program.length ≤ maxWords →
      (rows (assemble program)).map (fun r => (r.offset.toNat, r.statement)) =
        program.mapIdx fun k c => (2 * k, c.instruction.statement)) ∧
    (∀ w, (Instruction.decode w).InFormat ∧ ∃! d, Instruction.encode (.decode w) d = w) ∧
    Function.Bijective word :=
  ⟨fun _ h => statements_assemble h,
    fun w => ⟨Instruction.inFormat_decode w, Instruction.existsUnique_encode_decode w⟩,
    word_bijective⟩

/-- Two free nibbles that are filled, a call into machine code and a word without a meaning. -/
theorem assemble_inverts_decoding_of_four :
    let program : List Code :=
      [⟨.clear, trivial, (5 : Nibble)⟩, ⟨.shift .right ⟨3⟩, trivial, (10 : Nibble)⟩,
        ⟨.machineCode 0x123, ⟨by decide, by decide⟩, ()⟩,
        ⟨.unknown ⟨0x8348⟩, Instruction.inFormat_iff_encodable.mpr rfl, ()⟩]
    program.length ≤ maxWords ∧
      assemble program = [0x05, 0xE0, 0x83, 0xA6, 0x01, 0x23, 0x83, 0x48] ∧
      (rows (assemble program)).map (fun r => (r.offset.toNat, r.statement)) =
        [(0, ⟨"CLS", []⟩), (2, ⟨"SHR", [.register ⟨3⟩]⟩), (4, ⟨"SYS", [.address 0x123]⟩),
          (6, ⟨"UNK", [.word ⟨0x8348⟩]⟩)] := by
  intro program
  have hlength : program.length ≤ maxWords := by decide
  obtain ⟨hdisassembled, -, -⟩ := assemble_inverts_decoding
  exact ⟨hlength, rfl, hdisassembled program hlength⟩

end Code

end Chip8
