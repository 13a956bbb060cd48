import Chip8.Proofs.Statements
import Chip8.Proofs.Writers

/-!
# Writers that fill up

A writer may take only part of what it is given, and in the end nothing any more. A text is then
given to it again and again, each time without what was taken, until all of it is taken or an
attempt is refused. However the lines of a listing are cut into pieces on the way, a writer with
room for so many bytes ends up with exactly the first ones of the listing; if that is not all of it,
just one attempt is refused, although the rows of the program are gone through to their end.

## Main definitions

* `Text.Ascii`, `Text.bytes` — texts whose characters are one byte long, and the bytes of a text
* `Sink.attempt`, `Sink.persist` — one attempt at writing, and attempts until all is taken
* `Sink.Cut`, `Sink.Cut.write` — writing in pieces
* `Listing.latched` — writing the line of a row unless a line was refused before
* `Listing.counted` — counting and reporting a row besides
* `Sink.Filled` — what comes of writing a text to a sink with limited room

## Main results

* `Sink.Cut.write_eq_write` — neither pieces nor attempts show in a sink
* `Listing.dump_eq_foldlM`, `Listing.writeRows_eq_foldlM` — listings as loops over all rows
* `Listing.ascii_dumped`, `Listing.ascii_written` — a character of a listing is a byte
* `Listing.limited_sink_holds_prefix` — what a limited writer holds of a listing
-/

namespace Chip8

/-! ### Texts of single bytes -/

namespace Text

variable {text : String}

/-- All characters of a text are one byte long. -/
def Ascii (text : String) : Prop := ∀ c ∈ text.toList, c.toNat < 0x80

instance (text : String) : Decidable (Ascii text) :=
  List.decidableBAll (fun c : Char => c.toNat < 0x80) text.toList

theorem Ascii.append {s t : String} (hs : Ascii s) (ht : Ascii t) : Ascii (s ++ t) := by
  intro c hc
  rw [String.toList_append, List.mem_append] at hc
  exact hc.elim (hs c) (ht c)

theorem Ascii.join {texts : List String} (h : ∀ text ∈ texts, Ascii text) :
    Ascii (String.join texts) := by
  induction texts with
  | nil => exact fun c hc => absurd hc List.not_mem_nil
  | cons text texts ih =>
    obtain ⟨htext, hrest⟩ := List.forall_mem_cons.mp h
    rw [String.join_cons]
    exact htext.append (ih hrest)

theorem Ascii.intercalate {between : String} {texts : List String} (hbetween : Ascii between)
    (h : ∀ text ∈ texts, Ascii text) : Ascii (between.intercalate texts) := by
  intro c hc
  refine Nat.lt_of_not_le fun hlong => ?_
  rw [String.toList_intercalate] at hc
  refine not_mem_intercalate (fun hmem => ?_) (fun t ht hmem => ?_) hc
  · exact absurd (hbetween c hmem) (Nat.not_lt.mpr hlong)
  · obtain ⟨text, htext, rfl⟩ := List.mem_map.mp ht
    exact absurd (h text htext c hmem) (Nat.not_lt.mpr hlong)

theorem ascii_hex (width n : Nat) : Ascii (Hex.text width n) := by
  have key : Hex.alphabet.all (fun c => c.toNat < 0x80) = true := by decide
  exact fun c hc => of_decide_eq_true (List.all_eq_true.mp key c (Hex.mem_alphabet_of_mem_text hc))

/-- The bytes of a text. -/
def bytes (text : String) : List UInt8 := text.toUTF8.data.toList

theorem bytes_ofList {cs : List Char} (h : ∀ c ∈ cs, c.toNat < 0x80) :
    bytes (String.ofList cs) = cs.map fun c => c.val.toUInt8 := by
  rw [bytes, String.toUTF8_eq_toByteArray, String.toByteArray_ofList, List.utf8Encode,
    List.toList_data_toByteArray]
  induction cs with
  | nil => rfl
  | cons c cs ih =>
    obtain ⟨hc, hrest⟩ := List.forall_mem_cons.mp h
    have hsize : c.utf8Size = 1 := Char.utf8Size_eq_one_iff.mpr (Nat.le_of_lt_succ hc)
    rw [List.flatMap_cons, List.map_cons, String.utf8EncodeChar_eq_singleton hsize, ih hrest,
      List.singleton_append]

theorem Ascii.bytes_eq (h : Ascii text) : bytes text = text.toList.map fun c => c.val.toUInt8 := by
  rw [← bytes_ofList h, String.ofList_toList]

/-- The characters of such a text are its bytes. -/
theorem Ascii.length_bytes (h : Ascii text) : (bytes text).length = text.length := by
  rw [h.bytes_eq, List.length_map, String.length_toList]

/-- The first characters of such a text are its first bytes. -/
theorem Ascii.bytes_take (h : Ascii text) (n : Nat) :
    bytes (String.ofList (text.toList.take n)) = (bytes text).take n := by
  rw [h.bytes_eq, bytes_ofList fun c hc => h c (List.mem_of_mem_take hc), List.map_take]

end Text

/-! ### Attempts and pieces -/

namespace Sink

variable {s s' : Sink} {cs : List Char} {room : Nat}

/-- One attempt at writing: as many characters are taken as there is room for, and their number is
the answer. An attempt that could take none of some is refused. -/
def attempt (cs : List Char) : StateM Sink (Except Refusal Nat) := fun s =>
  match s.room with
  | none => (.ok cs.length, { s with taken := s.taken ++ String.ofList cs })
  | some room =>
    if room = 0 ∧ cs ≠ [] then (.error .full, { s with failures := s.failures + 1 })
    else
      (.ok (min room cs.length),
        { s with
          room := some (room - cs.length)
          taken := s.taken ++ String.ofList (cs.take room) })

/-- Writes characters until all of them are taken or an attempt is refused. -/
def persist (cs : List Char) : StateM Sink (Except Refusal Unit) :=
  if cs = [] then return .ok ()
  else do
    match ← attempt cs with
    | .error e => return .error e
    -- nothing will be taken the next time either
    | .ok 0 => return .error .full
    | .ok (n + 1) => persist (cs.drop (n + 1))
termination_by cs.length
decreasing_by
  have := List.length_pos_iff.mpr ‹cs ≠ []›
  rw [List.length_drop]
  omega

/-- A way of cutting texts into pieces, by which nothing is lost. -/
structure Cut where
  pieces : String → List String
  join_pieces : ∀ text, String.join (pieces text) = text

/-- Writes a text piece by piece, until one of them is refused. -/
def Cut.write (c : Cut) : Writer (StateM Sink) Refusal := fun text =>
  Writer.writeAll (fun piece => persist piece.toList) (c.pieces text)

theorem run_persist_nil (s : Sink) : (persist []).run s = (.ok (), s) := by
  rw [persist, if_pos rfl]
  rfl

theorem run_persist_of_refused (hne : cs ≠ []) (h : (attempt cs).run s = (.error .full, s')) :
    (persist cs).run s = (.error .full, s') := by
  rw [persist, if_neg hne, StateT.run_bind, h]
  rfl

theorem run_persist_of_taken {n : Nat} (hne : cs ≠ [])
    (h : (attempt cs).run s = (.ok (n + 1), s')) :
    (persist cs).run s = (persist (cs.drop (n + 1))).run s' := by
  rw [persist, if_neg hne, StateT.run_bind, h]
  rfl

theorem run_attempt_of_fits (h : s.fits (String.ofList cs) = true) :
    (attempt cs).run s = (.ok cs.length, s.offer (String.ofList cs)) := by
  rw [StateT.run, attempt]
  split
  · next hroom => rw [offer_of_room_eq_none hroom]
  · next room hroom =>
    rw [fits_iff_of_room_eq_some hroom] at h
    have hle : cs.length ≤ room := by rwa [String.length_ofList] at h
    have hsome : ¬ (room = 0 ∧ cs ≠ []) := by
      rintro ⟨rfl, hne⟩
      exact hne (List.eq_nil_of_length_eq_zero (Nat.le_zero.mp hle))
    rw [if_neg hsome, offer_of_le hroom h, Nat.min_eq_right hle, List.take_of_length_le hle,
      String.length_ofList]

theorem run_attempt_of_full (hroom : s.room = some 0) (hne : cs ≠ []) :
    (attempt cs).run s = (.error .full, { s with failures := s.failures + 1 }) := by
  simp only [StateT.run, attempt, hroom]
  exact if_pos ⟨trivial, hne⟩

theorem run_attempt_of_lt (hroom : s.room = some room) (hpos : 0 < room) (hlt : room < cs.length) :
    (attempt cs).run s =
      (.ok room,
        { s with room := some 0, taken := s.taken ++ String.ofList (cs.take room) }) := by
  have hsome : ¬ (room = 0 ∧ cs ≠ []) := fun h => Nat.ne_of_gt hpos h.1
  have hle : room ≤ cs.length := Nat.le_of_lt hlt
  simp only [StateT.run, attempt, hroom]
  rw [if_neg hsome, Nat.sub_eq_zero_of_le hle, Nat.min_eq_left hle]

/-- Whether characters are written in attempts or at once does not show in a sink: at most one
attempt takes a part of them, and the next one is refused. -/
theorem run_persist (s : Sink) (cs : List Char) :
    (persist cs).run s = (write (String.ofList cs)).run s := by
  rw [run_write]
  by_cases hne : cs = []
  · rw [hne, run_persist_nil, String.ofList_nil, fits_empty, offer_empty, if_pos rfl]
  have hpos : 0 < cs.length := List.length_pos_iff.mpr hne
  cases hfits : s.fits (String.ofList cs) with
  | true =>
    have hwhole : cs.length = cs.length - 1 + 1 := by omega
    have hattempt := run_attempt_of_fits hfits
    rw [hwhole] at hattempt
    rw [run_persist_of_taken hne hattempt, ← hwhole, List.drop_length, run_persist_nil, if_pos rfl]
  | false =>
    cases hroom : s.room with
    | none =>
      rw [fits_of_room_eq_none hroom] at hfits
      cases hfits
    | some room =>
      have hlt : room < cs.length := by
        rw [Bool.eq_false_iff, ne_eq, fits_iff_of_room_eq_some hroom, String.length_ofList] at hfits
        exact Nat.lt_of_not_le hfits
      rw [offer_of_lt hroom (by rwa [String.length_ofList]), String.toList_ofList]
      cases room with
      | zero =>
        rw [run_persist_of_refused hne (run_attempt_of_full hroom hne), List.take_zero,
          String.ofList_nil, String.append_empty, ← hroom]
        rfl
      | succ k =>
        have hrest : cs.drop (k + 1) ≠ [] := by
          rw [ne_eq, List.drop_eq_nil_iff]
          exact Nat.not_le.mpr hlt
        rw [run_persist_of_taken hne (run_attempt_of_lt hroom (Nat.succ_pos k) hlt),
          run_persist_of_refused hrest (run_attempt_of_full rfl hrest)]
        rfl

/-- Nor does it show into what pieces a text was cut. -/
theorem Cut.write_eq_write (c : Cut) : c.write = Sink.write := by
  have hpersist : (fun piece : String => persist piece.toList) = Sink.write := by
    funext piece
    refine StateT.ext fun s => ?_
    rw [run_persist, String.ofList_toList]
  funext text
  refine StateT.ext fun s => ?_
  rw [Cut.write, hpersist, seamless_write.writeAll_eq, c.join_pieces]

/-! ### Sinks with limited room -/

/-- What comes of writing a text to a sink with room for so many bytes: it is all taken, or as many
of its bytes as there is room for, and then one attempt is refused. -/
structure Filled {α : Type} (limit : Nat) (text : String) (yielded : α)
    (done : Except Refusal α × Sink) : Prop where
  whole : (Text.bytes text).length ≤ limit →
    done.1 = .ok yielded ∧ done.2.taken = text ∧ done.2.failures = 0
  part : limit < (Text.bytes text).length →
    done.1 = .error .full ∧ Text.bytes done.2.taken = (Text.bytes text).take limit ∧
      done.2.failures = 1

theorem filled_run_write {text : String} (hascii : Text.Ascii text) (limit : Nat) :
    Filled limit text () ((write text).run { room := some limit }) := by
  have hlength := hascii.length_bytes
  refine ⟨fun hle => ?_, fun hlt => ?_⟩
  · rw [hlength] at hle
    have hfits : ({ room := some limit } : Sink).fits text = true :=
      (fits_iff_of_room_eq_some rfl).mpr hle
    rw [run_write, if_pos hfits, offer_of_le rfl hle]
    exact ⟨rfl, String.empty_append, rfl⟩
  · rw [hlength] at hlt
    have hfull : ({ room := some limit } : Sink).fits text ≠ true :=
      fun hfits => Nat.not_le.mpr hlt ((fits_iff_of_room_eq_some rfl).mp hfits)
    rw [run_write, if_neg hfull, offer_of_lt rfl hlt]
    refine ⟨rfl, ?_, rfl⟩
    rw [String.empty_append, hascii.bytes_take]

theorem Filled.map {α β : Type} {limit : Nat} {text : String} {a : α}
    {action : StateM Sink (Except Refusal α)} (h : Filled limit text a (action.run s))
    (f : α → β) : Filled limit text (f a) ((Except.map f <$> action).run s) := by
  rw [StateT.run_map]
  refine ⟨fun hle => ?_, fun hlt => ?_⟩
  · obtain ⟨hok, htaken, hfailures⟩ := h.whole hle
    exact ⟨congrArg (Except.map f) hok, htaken, hfailures⟩
  · obtain ⟨hfull, htaken, hfailures⟩ := h.part hlt
    exact ⟨congrArg (Except.map f) hfull, htaken, hfailures⟩

end Sink

/-! ### Listings of single bytes -/

theorem Operand.ascii_text (o : Operand) : Text.Ascii o.text := by
  have hdollar : Text.Ascii "$" := by decide
  cases o with
  | register r => exact .append (by decide) (Text.ascii_hex 1 r.index.val)
  | byte b => exact hdollar.append (Text.ascii_hex 2 b.toNat)
  | address a => exact hdollar.append (Text.ascii_hex 3 a.val)
  | word w => exact hdollar.append (Text.ascii_hex 4 w.word.toNat)
  | rows n =>
    have key : ∀ k : Nibble, Text.Ascii (rows k).text := by decide
    exact key n
  | index | memory | delayTimer | soundTimer | key | glyph | digits => decide

theorem Statement.ascii_columns (i : Instruction) : Text.Ascii i.statement.columns := by
  have hnames : ∀ name ∈ mnemonics, Text.Ascii name := by decide
  have hmnemonic : Text.Ascii i.statement.mnemonic := hnames _ (mnemonic_mem_mnemonics i)
  have hblank : ' '.toNat < 0x80 := by decide
  unfold columns
  split
  · exact hmnemonic
  · refine Text.Ascii.append (fun c hc => ?_) ?_
    · rw [String.toList_ofList, List.rightpad, List.mem_append] at hc
      rcases hc with hname | hpad
      · exact hmnemonic c hname
      · rwa [List.eq_of_mem_replicate hpad]
    · refine Text.Ascii.intercalate (by decide) fun text htext => ?_
      obtain ⟨o, -, rfl⟩ := List.mem_map.mp htext
      exact o.ascii_text

namespace Listing

open Disassembly (Row)

theorem ascii_plainLine (base : UInt16) (r : Row) : Text.Ascii (plainLine base r) := by
  have hgap : Text.Ascii gap := by decide
  have hend : Text.Ascii "\n" := by decide
  exact (((Text.ascii_hex _ _).append hgap).append (Statement.ascii_columns r.instruction)).append
    hend

theorem ascii_annotatedLine (base : Nat) (r : Row) : Text.Ascii (annotatedLine base r) := by
  have hgap : Text.Ascii gap := by decide
  have hend : Text.Ascii "\n" := by decide
  have hword := Text.ascii_hex 4 r.opcode.word.toNat
  exact (((((Text.ascii_hex _ _).append hgap).append hword).append hgap).append
    (Statement.ascii_columns r.instruction)).append hend

theorem ascii_oddLine (address : Nat) (b : UInt8) : Text.Ascii (oddLine address b) := by
  have hgap : Text.Ascii gap := by decide
  have hend : Text.Ascii "    (odd trailing byte)\n" := by decide
  exact (((Text.ascii_hex _ _).append hgap).append (Text.ascii_hex 2 b.toNat)).append hend

/-- A character of the plain listing is a byte. -/
theorem ascii_dumped (program : List UInt8) (base : UInt16) :
    Text.Ascii (dumped program base) := by
  rw [dumped_eq_join]
  refine .join fun line hline => ?_
  obtain ⟨r, -, rfl⟩ := List.mem_map.mp hline
  exact ascii_plainLine base r

/-- A character of the annotated listing is a byte. -/
theorem ascii_written (program : List UInt8) (base : Nat) : Text.Ascii (written program base) := by
  rw [written_eq_join]
  refine .join fun line hline => ?_
  rcases List.mem_append.mp hline with hrow | hodd
  · obtain ⟨r, -, rfl⟩ := List.mem_map.mp hrow
    exact ascii_annotatedLine base r
  · obtain ⟨b, -, rfl⟩ := Option.map_eq_some_iff.mp (Option.mem_toList.mp hodd)
    exact ascii_oddLine _ b

/-! ### Listings as loops over all rows -/

section

variable {m : Type → Type} [Monad m] [LawfulMonad m] {ε : Type} {write : Writer m ε}

/-- Writes the line of a row, unless a line was refused before. -/
def latched (write : Writer m ε) (line : Row → String) : Except ε Unit → Row → m (Except ε Unit)
  | .ok (), r => write (line r)
  | .error e, _ => pure (.error e)

/-- Once a line was refused, the loop goes on to the end and writes nothing. -/
theorem foldlM_latched_error (line : Row → String) (e : ε) (rows : List Row) :
    rows.foldlM (latched write line) (.error e) = pure (.error e) := by
  induction rows with
  | nil => rfl
  | cons r rows ih => rw [List.foldlM_cons, latched, pure_bind, ih]

theorem foldlM_latched (line : Row → String) (rows : List Row) :
    rows.foldlM (latched write line) (.ok ()) = write.writeAll (rows.map line) := by
  induction rows with
  | nil => rfl
  | cons r rows ih =>
    rw [List.foldlM_cons, latched, List.map_cons, Writer.writeAll]
    refine bind_congr fun result => ?_
    cases result with
    | ok => exact ih
    | error e => exact foldlM_latched_error line e rows

/-- The plain listing is written by a loop that goes through all rows, refused or not. -/
theorem dump_eq_foldlM (program : List UInt8) (base : UInt16) :
    dump program base write =
      (Disassembly.rows program).foldlM (latched write (plainLine base)) (.ok ()) := by
  rw [dump, plain, foldlM_latched]

/-- What is done with a row of the annotated listing: it is counted and reported, and its line is
written unless a line was refused before. -/
def counted (report : Row → m Unit) (write : Writer m ε) (line : Row → String)
    (done : Summary × Except ε Unit) (r : Row) : m (Summary × Except ε Unit) := do
  report r
  let result ← latched write line done.2 r
  pure (done.1.count r, result)

theorem foldlM_counted_error (report : Row → m Unit) (line : Row → String) (e : ε)
    (rows : List Row) (s : Summary) :
    rows.foldlM (counted report write line) (s, .error e) =
      (do rows.forM report; pure (rows.foldl Summary.count s, .error e)) := by
  induction rows generalizing s with
  | nil =>
    have hnone : [].forM report = pure () := rfl
    rw [hnone, pure_bind, List.foldlM_nil, List.foldl_nil]
  | cons r rows ih =>
    have hfirst : (r :: rows).forM report = (do report r; rows.forM report) := rfl
    simp only [hfirst, List.foldlM_cons, counted, latched, bind_assoc, pure_bind, ih,
      List.foldl_cons]

/-- So are the rows of the annotated listing, and all of them are counted and reported. What was
counted is yielded unless a line was refused. -/
theorem writeRows_eq_foldlM (report : Row → m Unit) (base : Nat) (rows : List Row) (s : Summary) :
    writeRows report write base rows s =
      (fun done => done.2.map fun _ => done.1) <$>
        rows.foldlM (counted report write (annotatedLine base)) (s, .ok ()) := by
  induction rows generalizing s with
  | nil =>
    rw [List.foldlM_nil, map_pure]
    rfl
  | cons r rows ih =>
    rw [List.foldlM_cons, counted, latched, writeRows, bind_assoc, map_bind]
    refine bind_congr fun _ => ?_
    rw [bind_assoc, map_bind]
    refine bind_congr fun result => ?_
    rw [pure_bind]
    cases result with
    | ok => exact ih (s.count r)
    | error e =>
      rw [foldlM_counted_error, map_bind]
      simp only [map_pure]
      rfl

end

/-- **A limited writer holds a prefix and is refused once.** Both listings are written by a loop
that goes through all rows of the program and writes nothing behind a refusal. Into whatever pieces
the lines are cut, and in however many attempts a piece is written: a sink with room for so many
bytes takes a listing whole, without a refusal, if it has room for it. Otherwise the writing ends
with the refusal, the sink holds exactly the first bytes of the listing, and one single attempt was
refused. -/
theorem limited_sink_holds_prefix (program : List UInt8) (limit : Nat) (c : Sink.Cut) :
    (∀ base : UInt16,
      dump program base c.write =
          (Disassembly.rows program).foldlM (latched c.write (plainLine base)) (.ok ()) ∧
        Sink.Filled limit (dumped program base) ()
          ((dump program base c.write).run { room := some limit })) ∧
    ∀ base : Nat,
      (∀ report, writeRows report c.write base (Disassembly.rows program) {} =
        (fun done => done.2.map fun _ => done.1) <$>
          (Disassembly.rows program).foldlM (counted report c.write (annotatedLine base))
            ({}, .ok ())) ∧
      Sink.Filled limit (written program base) (summary program)
        ((writeAnnotated program base (fun _ => pure ()) c.write).run { room := some limit }) := by
  refine ⟨fun base => ⟨dump_eq_foldlM program base, ?_⟩,
    fun base => ⟨fun report => writeRows_eq_foldlM report base _ _, ?_⟩⟩
  · rw [c.write_eq_write, dump_eq_write Sink.seamless_write]
    exact Sink.filled_run_write (ascii_dumped program base) limit
  · rw [c.write_eq_write, writeAnnotated_eq_write Sink.seamless_write]
    exact (Sink.filled_run_write (ascii_written program base) limit).map fun _ => summary program

end Listing

end Chip8
