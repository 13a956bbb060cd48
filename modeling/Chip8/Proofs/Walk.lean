import Chip8.Proofs.Rows

/-!
# Disassembly is a walk

A disassembler walks through a program once: it takes the pieces of two bytes that the program
falls into, up to as many as there are offsets, and emits one instruction for each, until a piece
is short. What it emits are the rows of the program, in their order, whatever is done with them.

The rows of a program are therefore known one by one. A last byte without a partner adds no row, and
bytes behind the last offset add none. Where a program of whole words is followed by another one,
the rows of the second come behind those of the first, only moved.

## Main definitions

* `Disassembly.pieces` — the pieces of two bytes that a program falls into
* `Disassembly.walk` — the walk, with what is done for each instruction
* `Disassembly.Row.moved` — a row further behind

## Main results

* `Disassembly.walk_eq_forM` — the walk goes through the rows
* `Disassembly.pairwise_offset_rows` — offsets grow from row to row
* `Disassembly.rows_append` — the rows of a program that is followed by another
* `Disassembly.walk_exact_and_compositional` — all of it
-/

namespace Chip8.Disassembly

variable {m : Type → Type} [Monad m] {emit : UInt16 → String → List String → m Unit}
  {program p q : List UInt8} {r : Row} {k n : Nat}

/-- The pieces of two bytes that a program falls into; the last one may be short. -/
def pieces : List UInt8 → List (List UInt8)
  | high :: low :: rest => [high, low] :: pieces rest
  | [] => []
  | short => [short]

/-- Goes through numbered pieces until one is short, and emits the instruction of each: its offset,
its mnemonic and its operands. -/
def walkPieces (emit : UInt16 → String → List String → m Unit)
    (numbered : List (List UInt8 × Nat)) : m Unit := do
  for (piece, k) in numbered do
    match piece with
    | [high, low] =>
      let s := (Instruction.decode (.ofBytes high low)).statement
      emit (UInt16.ofNat (2 * k)) s.mnemonic (s.operands.map Operand.text)
    | _ => break

/-- Walks through a program and emits its instructions, up to one for each offset. -/
def walk (program : List UInt8) (emit : UInt16 → String → List String → m Unit) : m Unit :=
  walkPieces emit ((pieces program).take maxWords).zipIdx

namespace Row

/-- Emits a row: its offset, its mnemonic and its operands. -/
def emitBy (r : Row) (emit : UInt16 → String → List String → m Unit) : m Unit :=
  emit r.offset r.statement.mnemonic (r.statement.operands.map Operand.text)

/-- A row so many bytes further behind. -/
def moved (bytes : Nat) (r : Row) : Row := { r with offset := r.offset + UInt16.ofNat bytes }

end Row

/-! ### The walk goes through the rows -/

theorem rows_eq_mapIdx (program : List UInt8) :
    rows program = ((words program).take maxWords).mapIdx row := by
  rw [rows, words_take]

section Walk

variable [LawfulMonad m]

theorem walkPieces_nil : walkPieces emit [] = pure () := by
  rw [walkPieces, List.forIn_nil, pure_bind]

/-- A piece of two bytes is emitted, and the walk goes on. -/
theorem walkPieces_cons_pair (high low : UInt8) (k : Nat) (rest : List (List UInt8 × Nat)) :
    walkPieces emit (([high, low], k) :: rest) = (do
      (row k (.ofBytes high low)).emitBy emit
      walkPieces emit rest) := by
  simp only [walkPieces, List.forIn_cons, bind_assoc, pure_bind]
  rfl

/-- A short piece ends the walk. -/
theorem walkPieces_cons_short (last : UInt8) (k : Nat) (rest : List (List UInt8 × Nat)) :
    walkPieces emit (([last], k) :: rest) = pure () := by
  simp only [walkPieces, List.forIn_cons, pure_bind]

/-- From any number on, the walk goes through the rows of the words that the pieces make up. -/
theorem walkPieces_zipIdx (program : List UInt8) (n k : Nat) :
    walkPieces emit (((pieces program).take n).zipIdx k) =
      ((((words program).take n).zipIdx k).map fun (w, k) => row k w).forM fun r =>
        r.emitBy emit := by
  induction n generalizing program k with
  | zero => exact walkPieces_nil
  | succ n ih =>
    match program with
    | [] => exact walkPieces_nil
    | [last] => exact walkPieces_cons_short last k _
    | high :: low :: rest =>
      rw [pieces, words, List.take_succ_cons, List.take_succ_cons, List.zipIdx_cons,
        List.zipIdx_cons, walkPieces_cons_pair, ih]
      rfl

/-- What the walk emits are the rows. -/
theorem walk_eq_forM (program : List UInt8) (emit : UInt16 → String → List String → m Unit) :
    walk program emit = (rows program).forM fun r => r.emitBy emit := by
  rw [walk, walkPieces_zipIdx, rows_eq_mapIdx, List.mapIdx_eq_zipIdx_map]

end Walk

/-! ### The rows one by one -/

/-- Row `k` stands at the offset `2 * k` and holds the word of the two bytes there. -/
theorem exists_row (h : k < listed program) :
    ∃ high low, program[2 * k]? = some high ∧ program[2 * k + 1]? = some low ∧
      ∃ r, (rows program)[k]? = some r ∧ r.offset.toNat = 2 * k ∧ r.opcode = .ofBytes high low := by
  have hoffset := toNat_offset_row (Nat.lt_of_lt_of_le h (Nat.min_le_right _ _))
    (wordAt program k)
  have hrow := getElem?_rows h
  obtain ⟨high, low, hhigh, hlow, hopcode⟩ := bytes_of_mem_rows (List.mem_of_getElem? hrow)
  rw [hoffset] at hhigh hlow
  exact ⟨high, low, hhigh, hlow, _, hrow, hoffset, hopcode⟩

theorem pairwise_offset_rows (program : List UInt8) :
    (rows program).Pairwise fun r r' => r.offset < r'.offset := by
  rw [rows_eq_map_range, List.pairwise_map]
  refine List.pairwise_lt_range.imp_of_mem fun {j k} hj hk hlt => ?_
  -- no offset wraps, so their order is that of the numbers
  have hbound : ∀ {i}, i ∈ List.range (listed program) → i < maxWords := fun hi =>
    Nat.lt_of_lt_of_le (List.mem_range.mp hi) (Nat.min_le_right _ _)
  rw [UInt16.lt_iff_toNat_lt, toNat_offset_row (hbound hj), toNat_offset_row (hbound hk)]
  omega

/-! ### What adds no row, and what adds rows -/

/-- Whole words stay the same words, whatever follows them. -/
theorem words_append (heven : p.length % 2 = 0) (q : List UInt8) :
    words (p ++ q) = words p ++ words q := by
  fun_induction words p with
  | case1 high low rest ih =>
    have hrest : rest.length % 2 = 0 := by
      simp only [List.length_cons] at heven
      omega
    exact congrArg _ (ih hrest)
  | case2 p hshort =>
    have hzero : p.length = 0 := by
      have hpairs := length_div_two_of_short hshort
      omega
    rw [List.eq_nil_of_length_eq_zero hzero]
    rfl

/-- A byte without a partner adds no row. -/
theorem rows_append_singleton (heven : p.length % 2 = 0) (last : UInt8) :
    rows (p ++ [last]) = rows p := by
  have hnone : words [last] = [] := rfl
  rw [rows_eq_mapIdx, words_append heven, hnone, List.append_nil, rows_eq_mapIdx]

/-- What lies behind the last offset does not influence the rows. -/
theorem rows_congr (h : p.take 0x10000 = q.take 0x10000) : rows p = rows q := by
  have htake : p.take (2 * maxWords) = q.take (2 * maxWords) := h
  rw [← rows_take p, htake, rows_take]

/-- If there are offsets for all words of a program, they are all listed. -/
theorem rows_of_le (hle : program.length ≤ 0x10000) :
    rows program = (words program).mapIdx row := by
  have hfit : (words program).length ≤ maxWords := by
    rw [length_words, maxWords]
    omega
  rw [rows_eq_mapIdx, List.take_of_length_le hfit]

/-- The rows of words behind others are their own rows moved. -/
theorem mapIdx_row_add (ws : List Opcode) (n : Nat) :
    ws.mapIdx (fun k => row (k + n)) = (ws.mapIdx row).map (Row.moved (2 * n)) := by
  apply List.ext_getElem
  · simp only [List.length_mapIdx, List.length_map]
  · intro k _ _
    rw [List.getElem_mapIdx, List.getElem_map, List.getElem_mapIdx, row, row, Row.moved,
      Nat.mul_add, UInt16.ofNat_add]

/-- Behind a program of whole words, the rows of another one are moved by its length. -/
theorem rows_append (heven : p.length % 2 = 0) (hle : p.length + q.length ≤ 0x10000) :
    rows (p ++ q) = rows p ++ (rows q).map (Row.moved p.length) := by
  have hboth : (p ++ q).length ≤ 0x10000 := by rwa [List.length_append]
  have hlength : 2 * (words p).length = p.length := by
    rw [length_words]
    omega
  rw [rows_of_le hboth, rows_of_le (Nat.le_of_add_right_le hle),
    rows_of_le (Nat.le_of_add_left_le hle), words_append heven, List.mapIdx_append, mapIdx_row_add,
    hlength]

/-- No offset of a row that was moved wraps, as long as there are offsets. -/
theorem toNat_offset_moved (hle : n + q.length ≤ 0x10000) (hr : r ∈ rows q) :
    (r.moved n).offset.toNat = r.offset.toNat + n := by
  have hinside := offset_lt_of_mem_rows hr
  rw [Row.moved, UInt16.toNat_add, UInt16.toNat_ofNat']
  omega

/-! ### All of it -/

/-- **Disassembly is an exact and compositional walk.** Whatever is done for each instruction, the
walk through a program does it for the rows, one behind the other. There are as many rows as whole
words, but not more than even offsets of sixteen bits. Row `k` stands exactly at the offset `2 * k`
and holds the instruction of the word made of the two bytes there, the high one first, so offsets
grow from row to row. Neither a last byte without a partner nor bytes from offset `0x10000` on
influence the rows. Behind a program of whole words, the rows of another one are its own rows with
the length of the first added to their offsets. -/
theorem walk_exact_and_compositional (program : List UInt8) :
    (∀ {m : Type → Type} [Monad m] [LawfulMonad m] (emit : UInt16 → String → List String → m Unit),
      walk program emit = (rows program).forM fun r => r.emitBy emit) ∧
    (rows program).length = min (program.length / 2) 0x8000 ∧
    (∀ k < min (program.length / 2) 0x8000, ∃ high low,
      program[2 * k]? = some high ∧ program[2 * k + 1]? = some low ∧
        ∃ r, (rows program)[k]? = some r ∧ r.offset.toNat = 2 * k ∧
          r.opcode.word.toNat = high.toNat * 0x100 + low.toNat ∧
          r.statement = (Instruction.decode (.ofBytes high low)).statement) ∧
    (rows program).Pairwise (fun r r' => r.offset < r'.offset) ∧
    (program.length % 2 = 0 → ∀ last, rows (program ++ [last]) = rows program) ∧
    (∀ q, q.take 0x10000 = program.take 0x10000 → rows q = rows program) ∧
    ∀ q, program.length % 2 = 0 → program.length + q.length ≤ 0x10000 →
      rows (program ++ q) = rows program ++ (rows q).map (Row.moved program.length) ∧
        ∀ r ∈ rows q, (r.moved program.length).offset.toNat = r.offset.toNat + program.length := by
  refine ⟨fun emit => walk_eq_forM program emit, length_rows program, fun k hk => ?_,
    pairwise_offset_rows program, rows_append_singleton, fun q => rows_congr,
    fun q heven hle => ⟨rows_append heven hle, fun r hr => toNat_offset_moved hle hr⟩⟩
  obtain ⟨high, low, hhigh, hlow, r, hrow, hoffset, hopcode⟩ := exists_row hk
  refine ⟨high, low, hhigh, hlow, r, hrow, hoffset, ?_, ?_⟩
  · rw [hopcode, Opcode.toNat_ofBytes]
  · rw [Row.statement, Row.instruction, hopcode]

/-- A program of two words: what is emitted of it, one of its rows, and what follows it. A program
that takes up all offsets and goes on behind them. -/
theorem walk_exact_and_compositional_of_two :
    let program : List UInt8 := [0x00, 0xE0, 0xA2, 0x02]
    let q : List UInt8 := [0x12, 0x00, 0xFF]
    let full : List UInt8 := List.replicate 0x10000 0
    (((walk program fun offset mnemonic operands =>
        modify (· ++ [(offset, mnemonic, operands)])) : StateM _ Unit).run []).2 =
      [(0, "CLS", []), (2, "LD", ["I", "$202"])] ∧
    (∃ r, (rows program)[1]? = some r ∧ r.offset.toNat = 2) ∧
    rows (program ++ [0xFF]) = rows program ∧
    rows (program ++ q) = rows program ++ (rows q).map (Row.moved 4) ∧
    (rows q).map (Row.moved 4) = [⟨4, ⟨0x1200⟩⟩] ∧
    rows (full ++ [0x12, 0x00]) = rows full := by
  intro program q full
  have hfull : full.length = 0x10000 := List.length_replicate
  have hcut : (full ++ [0x12, 0x00]).take 0x10000 = full.take 0x10000 := by
    rw [List.take_left' hfull, List.take_of_length_le (Nat.le_of_eq hfull)]
  obtain ⟨hwalk, -, hrow, -, hlast, -, hbehind⟩ := walk_exact_and_compositional program
  obtain ⟨-, -, -, -, -, hlong, -⟩ := walk_exact_and_compositional full
  obtain ⟨-, -, -, -, r, hr, hoffset, -⟩ := hrow 1 (by decide)
  obtain ⟨happend, -⟩ := hbehind q (by decide) (by decide)
  rw [hwalk]
  exact ⟨by decide +kernel, ⟨r, hr, hoffset⟩, hlast (by decide) 0xFF, happend, by rfl,
    hlong _ hcut⟩

end Chip8.Disassembly
