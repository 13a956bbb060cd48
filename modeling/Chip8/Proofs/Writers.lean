import Chip8.Listing

/-!
# Writing listings

A sink takes a text whole, or as much of it as there is room for. Texts that are offered to it one
behind the other are taken like the one text that they make up, and the first refusal ends them: it
does not matter where texts are cut. A listing is written line by line, so with such a writer all
that counts is its text. Neither does it matter whether rows are reported one by one while they are
written, or all of them afterwards, as long as reports and writing do not get in each other's way.

A writer that never refuses, of whatever kind, ends up with the texts that a sink without a limit
takes.

## Main definitions

* `Writer.Seamless` — a writer for which it does not matter where texts are cut
* `Writer.Unfailing` — a writer that never refuses
* `Listing.dumped`, `Listing.written` — what a sink without a limit takes of a listing

## Main results

* `Writer.Seamless.writeAll_eq` — texts are written like the text that they make up
* `Sink.fits_append`, `Sink.offer_append_of_fits`, `Sink.offer_append_of_not_fits` — what is offered
  in two parts
* `Sink.seamless_write` — it does not matter where texts for a sink are cut
* `Listing.dump_eq_write`, `Listing.writeAnnotated_eq_write` — listings are written like their texts
* `Listing.writeAnnotated_eq_of_comm` — reports can wait until a listing is written
* `Listing.dumped_eq_join`, `Listing.written_eq_join` — the texts of listings
* `Listing.takes_dump`, `Listing.takes_writeAnnotated` — a writer that never refuses takes them
-/

namespace Chip8

namespace Writer

variable {m : Type → Type} [Monad m] {ε : Type} {write : Writer m ε}

/-! ### Where texts are cut -/

/-- A writer for which it does not matter where texts are cut. -/
structure Seamless (write : Writer m ε) : Prop where
  /-- An empty text is never refused and changes nothing. -/
  write_empty : write "" = pure (.ok ())
  /-- A text in two parts is written part by part, unless the first part is refused. -/
  write_append : ∀ text text', write (text ++ text') = (do
    match ← write text with
    | .ok () => write text'
    | .error e => pure (.error e))

/-- Texts are written like the one text that they make up: behind the first that is refused,
nothing more is written. -/
theorem Seamless.writeAll_eq (h : Seamless write) (texts : List String) :
    write.writeAll texts = write (String.join texts) := by
  induction texts with
  | nil => rw [String.join_nil, h.write_empty, writeAll]
  | cons text texts ih =>
    rw [writeAll, String.join_cons, h.write_append]
    refine bind_congr fun result => ?_
    cases result with
    | ok => exact ih
    | error e => rfl

/-- It does not matter where texts are cut, if a state takes a text in two parts as it takes it
whole, and nothing of the second part if the first does not fit. -/
theorem seamless_of_offer {σ : Type} {e : σ → ε} {fits : σ → String → Bool}
    {offer : σ → String → σ} {write : Writer (StateM σ) ε}
    (hrun : ∀ s text,
      (write text).run s = (if fits s text then .ok () else .error (e s), offer s text))
    (herror : ∀ s text, e (offer s text) = e s)
    (hfitsEmpty : ∀ s, fits s "" = true) (hofferEmpty : ∀ s, offer s "" = s)
    (hfits : ∀ s text text', fits s (text ++ text') = (fits s text && fits (offer s text) text'))
    (hofferFits : ∀ {s text}, fits s text = true →
      ∀ text', offer s (text ++ text') = offer (offer s text) text')
    (hofferFull : ∀ {s text}, fits s text = false →
      ∀ text', offer s (text ++ text') = offer s text) :
    Seamless write where
  write_empty := by
    refine StateT.ext fun s => ?_
    rw [hrun, hfitsEmpty, hofferEmpty, if_pos rfl]
    rfl
  write_append text text' := by
    refine StateT.ext fun s => ?_
    rw [StateT.run_bind, hrun, hrun, hfits]
    cases hfirst : fits s text with
    | true =>
      rw [hofferFits hfirst, Bool.true_and, ← herror s text]
      exact (hrun _ text').symm
    | false =>
      rw [hofferFull hfirst]
      rfl

/-! ### What does not get in the way of writing -/

/-- It does not matter whether an action comes before a writing or after it. -/
def Commutes (write : Writer m ε) (action : m Unit) : Prop :=
  ∀ text, (do action; write text) = (do let result ← write text; action; pure result)

variable [LawfulMonad m]

theorem Commutes.bind_comm {action : m Unit} (h : write.Commutes action) (text : String)
    {α : Type} (next : Except ε Unit → m α) :
    (do action; let result ← write text; next result) =
      (do let result ← write text; action; next result) := by
  calc (do action; let result ← write text; next result)
      = (do action; write text) >>= next := (bind_assoc ..).symm
    _ = (do let result ← write text; action; pure result) >>= next := by rw [h text]
    _ = (do let result ← write text; action; next result) := by simp only [bind_assoc, pure_bind]

theorem Commutes.forM {α : Type} {action : α → m Unit} (h : ∀ a, write.Commutes (action a))
    (as : List α) : write.Commutes (as.forM action) := by
  intro text
  induction as with
  | nil =>
    have hnone : [].forM action = pure () := rfl
    simp only [hnone, pure_bind, bind_pure]
  | cons a as ih =>
    have hfirst : (a :: as).forM action = (do action a; as.forM action) := rfl
    rw [hfirst, bind_assoc, ih, (h a).bind_comm]
    simp only [bind_assoc]

end Writer

namespace Sink

variable {s : Sink} {text text' : String} {room : Nat}

/-! ### What is offered to a sink -/

theorem offer_of_room_eq_none (h : s.room = none) (text : String) :
    s.offer text = { s with taken := s.taken ++ text } := by
  rw [offer, h]

theorem offer_of_le (h : s.room = some room) (hle : text.length ≤ room) :
    s.offer text = { s with room := some (room - text.length), taken := s.taken ++ text } := by
  simp only [offer, h, if_pos hle]

theorem offer_of_lt (h : s.room = some room) (hlt : room < text.length) :
    s.offer text =
      { room := some 0
        taken := s.taken ++ String.ofList (text.toList.take room)
        failures := s.failures + 1 } := by
  simp only [offer, h, if_neg (Nat.not_le.mpr hlt)]

theorem fits_of_room_eq_none (h : s.room = none) (text : String) : s.fits text = true := by
  rw [fits, h]

theorem fits_iff_of_room_eq_some (h : s.room = some room) :
    s.fits text = true ↔ text.length ≤ room := by
  rw [fits, h, decide_eq_true_iff]

theorem fits_iff (s : Sink) (text : String) :
    s.fits text = true ↔ ∀ room, s.room = some room → text.length ≤ room := by
  cases hroom : s.room with
  | none => exact iff_of_true (fits_of_room_eq_none hroom text) fun _ h => nomatch h
  | some room =>
    rw [fits_iff_of_room_eq_some hroom]
    exact ⟨fun hle _ h => Option.some.inj h ▸ hle, fun h => h room rfl⟩

theorem offer_empty (s : Sink) : s.offer "" = s := by
  cases hroom : s.room with
  | none => rw [offer_of_room_eq_none hroom, String.append_empty]
  | some room =>
    have hle : "".length ≤ room := Nat.zero_le room
    rw [offer_of_le hroom hle, String.append_empty, String.length_empty, Nat.sub_zero, ← hroom]

theorem fits_empty (s : Sink) : s.fits "" = true := by
  cases hroom : s.room with
  | none => exact fits_of_room_eq_none hroom ""
  | some room => exact (fits_iff_of_room_eq_some hroom).mpr (Nat.zero_le room)

/-- A text in two parts fits if the first part does, and the second then still does. -/
theorem fits_append (s : Sink) (text text' : String) :
    s.fits (text ++ text') = (s.fits text && (s.offer text).fits text') := by
  cases hroom : s.room with
  | none =>
    have hroom' : (s.offer text).room = none := by
      rw [offer_of_room_eq_none hroom]
      exact hroom
    rw [fits_of_room_eq_none hroom, fits_of_room_eq_none hroom, fits_of_room_eq_none hroom']
    rfl
  | some room =>
    rw [Bool.eq_iff_iff, Bool.and_eq_true, fits_iff_of_room_eq_some hroom,
      fits_iff_of_room_eq_some hroom, String.length_append]
    rcases Nat.lt_or_ge room text.length with hlt | hle
    · exact iff_of_false (by omega) fun h => absurd h.1 (Nat.not_le.mpr hlt)
    · rw [offer_of_le hroom hle, fits_iff_of_room_eq_some rfl]
      omega

/-- Behind a part that fits, the other part is taken as if it came alone. -/
theorem offer_append_of_fits (h : s.fits text = true) (text' : String) :
    s.offer (text ++ text') = (s.offer text).offer text' := by
  cases hroom : s.room with
  | none =>
    have hroom' : { s with taken := s.taken ++ text }.room = none := hroom
    rw [offer_of_room_eq_none hroom, offer_of_room_eq_none hroom, offer_of_room_eq_none hroom',
      String.append_assoc]
  | some room =>
    have hle : text.length ≤ room := (fits_iff_of_room_eq_some hroom).mp h
    rw [offer_of_le hroom hle]
    rcases Nat.lt_or_ge (room - text.length) text'.length with hlt | hle'
    · have hlong : room < (text ++ text').length := by
        rw [String.length_append]
        omega
      have hcut : (text.toList ++ text'.toList).take room =
          text.toList ++ text'.toList.take (room - text.length) := by
        rw [List.take_append, String.length_toList,
          List.take_of_length_le (by rwa [String.length_toList])]
      rw [offer_of_lt hroom hlong, offer_of_lt rfl hlt, String.toList_append, hcut,
        String.ofList_append, String.ofList_toList, String.append_assoc]
    · have hshort : (text ++ text').length ≤ room := by
        rw [String.length_append]
        omega
      rw [offer_of_le hroom hshort, offer_of_le rfl hle', String.append_assoc,
        String.length_append, Nat.sub_add_eq]

/-- Behind a part that does not fit, nothing of the other part is taken. -/
theorem offer_append_of_not_fits (h : s.fits text = false) (text' : String) :
    s.offer (text ++ text') = s.offer text := by
  cases hroom : s.room with
  | none =>
    rw [fits_of_room_eq_none hroom] at h
    cases h
  | some room =>
    have hlt : room < text.length := by
      rw [Bool.eq_false_iff, ne_eq, fits_iff_of_room_eq_some hroom] at h
      exact Nat.lt_of_not_le h
    have hlong : room < (text ++ text').length := by
      rw [String.length_append]
      omega
    have hcut : (text.toList ++ text'.toList).take room = text.toList.take room :=
      List.take_append_of_le_length (by
        rw [String.length_toList]
        exact Nat.le_of_lt hlt)
    rw [offer_of_lt hroom hlong, offer_of_lt hroom hlt, String.toList_append, hcut]

/-! ### What is written to a sink -/

theorem run_write (s : Sink) (text : String) :
    (write text).run s = (if s.fits text then .ok () else .error .full, s.offer text) := rfl

/-- A sink without a limit takes any text whole. -/
theorem run_write_unlimited (text : String) :
    (write text).run {} = (.ok (), { taken := text }) := by
  rw [run_write, fits_of_room_eq_none rfl, if_pos rfl, offer_of_room_eq_none rfl,
    String.empty_append]

/-- It does not matter where texts for a sink are cut. -/
theorem seamless_write : Writer.Seamless write :=
  Writer.seamless_of_offer run_write (fun _ _ => rfl) fits_empty offer_empty fits_append
    offer_append_of_fits offer_append_of_not_fits

end Sink

namespace Listing

open Writer (Seamless)

variable {m : Type → Type} [Monad m] [LawfulMonad m] {ε : Type} {write : Writer m ε}
  {report : Disassembly.Row → m Unit}

/-! ### Summaries -/

theorem Summary.trailing_none {s : Summary} (hs : s.trailing = none) :
    { s with trailing := none } = s := by rw [← hs]

theorem map_writeRows (report : Disassembly.Row → m Unit) (write : Writer m ε) (base : Nat)
    (rows : List Disassembly.Row) (s : Summary) :
    Except.map (fun _ => rows.foldl Summary.count s) <$> writeRows report write base rows s =
      writeRows report write base rows s := by
  induction rows generalizing s with
  | nil => exact map_pure _ _
  | cons r rows ih =>
    rw [writeRows, map_bind]
    refine bind_congr fun _ => ?_
    rw [map_bind]
    refine bind_congr fun result => ?_
    cases result with
    | ok => exact ih (s.count r)
    | error e =>
      rw [map_bind]
      exact bind_congr fun _ => map_pure _ _

theorem map_writeTrailing (program : List UInt8) (base : Nat) (write : Writer m ε) {s : Summary}
    (hs : s.trailing = none) :
    Except.map (fun _ => { s with trailing := trailing? program }) <$>
      writeTrailing program base write s = writeTrailing program base write s := by
  rw [writeTrailing]
  cases trailing? program with
  | none =>
    rw [Summary.trailing_none hs]
    exact map_pure _ _
  | some b =>
    rw [map_bind]
    refine bind_congr fun result => ?_
    cases result with
    | ok => exact map_pure _ _
    | error e => exact map_pure _ _

theorem trailing_foldl_count (rows : List Disassembly.Row) :
    (rows.foldl Summary.count {}).trailing = none := by
  rw [foldl_count]

/-- Whatever the writer is: a writing that succeeds yields the summary of its program. -/
theorem map_writeAnnotated (program : List UInt8) (base : Nat) (report : Disassembly.Row → m Unit)
    (write : Writer m ε) :
    Except.map (fun _ => summary program) <$> writeAnnotated program base report write =
      writeAnnotated program base report write := by
  have hrows := map_writeRows report write base (Disassembly.rows program) {}
  rw [writeAnnotated, ← hrows, map_bind, bind_map_left, bind_map_left]
  refine bind_congr fun result => ?_
  cases result with
  | ok s =>
    rw [summary_eq]
    exact map_writeTrailing program base write (trailing_foldl_count _)
  | error e => exact map_pure _ _

theorem eq_summary_of_writeAnnotated {σ : Type} {program : List UInt8} {base : Nat}
    {report : Disassembly.Row → StateM σ Unit} {write : Writer (StateM σ) ε} {s s' : σ}
    {yielded : Summary}
    (h : (writeAnnotated program base report write).run s = (.ok yielded, s')) :
    yielded = summary program := by
  have hsame := congrArg (fun action => (action.run s).1)
    (map_writeAnnotated program base report write)
  rw [StateT.run_map, h] at hsame
  exact (Except.ok.inj hsame).symm

/-! ### Reports and lines -/

/-- Rows are written like the text of their lines, and reported afterwards. -/
theorem writeRows_eq_of_comm (h : Seamless write) (hcomm : ∀ r, write.Commutes (report r))
    (base : Nat) (rows : List Disassembly.Row) (s : Summary) :
    writeRows report write base rows s = (do
      let result ← write (String.join (rows.map (annotatedLine base)))
      rows.forM report
      pure (result.map fun _ => rows.foldl Summary.count s)) := by
  induction rows generalizing s with
  | nil =>
    have hnone : [].forM report = pure () := rfl
    rw [writeRows, List.map_nil, String.join_nil, h.write_empty, hnone, pure_bind, pure_bind]
    rfl
  | cons r rows ih =>
    have hfirst : (r :: rows).forM report = (do report r; rows.forM report) := rfl
    -- the report of the first row moves behind its line, and then behind the other lines
    rw [writeRows, (hcomm r).bind_comm, List.map_cons, String.join_cons, h.write_append, bind_assoc,
      hfirst]
    refine bind_congr fun result => ?_
    cases result with
    | ok => simp only [ih, (hcomm r).bind_comm, bind_assoc, List.foldl_cons]
    | error e =>
      simp only [pure_bind, bind_assoc]
      rfl

theorem writeTrailing_eq (h : Seamless write) (program : List UInt8) (base : Nat) {s : Summary}
    (hs : s.trailing = none) :
    writeTrailing program base write s = (do
      let result ← write (String.join (trailingLine? program base).toList)
      pure (result.map fun _ => { s with trailing := trailing? program })) := by
  rw [writeTrailing, trailingLine?]
  cases trailing? program with
  | none =>
    rw [Option.map_none, Option.toList_none, String.join_nil, h.write_empty, pure_bind,
      Summary.trailing_none hs]
    rfl
  | some b =>
    rw [Option.map_some, Option.toList_some, String.join_cons, String.join_nil,
      String.append_empty]
    refine bind_congr fun result => ?_
    cases result with
    | ok => rfl
    | error e => rfl

/-- An annotated listing is written like the text of its lines, and its rows are reported
afterwards. -/
theorem writeAnnotated_eq_of_comm (h : Seamless write) (hcomm : ∀ r, write.Commutes (report r))
    (program : List UInt8) (base : Nat) :
    writeAnnotated program base report write = (do
      let result ← write (String.join (annotated program base))
      (Disassembly.rows program).forM report
      pure (result.map fun _ => summary program)) := by
  rw [writeAnnotated, writeRows_eq_of_comm h hcomm, annotated, String.join_append,
    h.write_append, bind_assoc, bind_assoc]
  refine bind_congr fun result => ?_
  cases result with
  | ok =>
    have htrailing := writeTrailing_eq h program base
      (trailing_foldl_count (Disassembly.rows program))
    simp only [bind_assoc, pure_bind, Except.map, htrailing, ← summary_eq]
    exact ((Writer.Commutes.forM hcomm _).bind_comm _ _)
  | error e =>
    simp only [bind_assoc, pure_bind]
    rfl

theorem forM_pure (rows : List Disassembly.Row) :
    rows.forM (fun _ => pure ()) = (pure () : m Unit) := by
  induction rows with
  | nil => rfl
  | cons r rows ih => exact (pure_bind _ _).trans ih

theorem writeAnnotated_eq_write_join (h : Seamless write) (program : List UInt8) (base : Nat) :
    writeAnnotated program base (fun _ => pure ()) write =
      Except.map (fun _ => summary program) <$> write (String.join (annotated program base)) := by
  have hcomm : ∀ _ : Disassembly.Row, write.Commutes (pure ()) := fun _ text => by
    simp only [pure_bind, bind_pure]
  simp only [writeAnnotated_eq_of_comm h hcomm, forM_pure, pure_bind]
  exact bind_pure_comp _ _

/-! ### What a sink without a limit takes -/

/-- What a sink without a limit takes of the plain listing. -/
def dumped (program : List UInt8) (base : UInt16) : String :=
  ((dump program base Sink.write).run {}).2.taken

/-- What a sink without a limit takes of the annotated listing. -/
def written (program : List UInt8) (base : Nat) : String :=
  ((writeAnnotated program base (fun _ => pure ()) Sink.write).run {}).2.taken

theorem dumped_eq_join (program : List UInt8) (base : UInt16) :
    dumped program base = String.join (plain program base) := by
  rw [dumped, dump, Sink.seamless_write.writeAll_eq, Sink.run_write_unlimited]

theorem written_eq_join (program : List UInt8) (base : Nat) :
    written program base = String.join (annotated program base) := by
  rw [written, writeAnnotated_eq_write_join Sink.seamless_write, StateT.run_map,
    Sink.run_write_unlimited]
  rfl

omit [LawfulMonad m] in
/-- Writing the plain listing is writing its text. -/
theorem dump_eq_write (h : Seamless write) (program : List UInt8) (base : UInt16) :
    dump program base write = write (dumped program base) := by
  rw [dump, h.writeAll_eq, dumped_eq_join]

/-- Writing the annotated listing is writing its text and summing up. -/
theorem writeAnnotated_eq_write (h : Seamless write) (program : List UInt8) (base : Nat) :
    writeAnnotated program base (fun _ => pure ()) write =
      Except.map (fun _ => summary program) <$> write (written program base) := by
  rw [writeAnnotated_eq_write_join h, written_eq_join]

end Listing

/-! ### Writers that never refuse -/

section Unfailing

variable {σ ε α β : Type} {free : σ → Prop} {content : σ → String} {write : Writer (StateM σ) ε}
  {report : Disassembly.Row → StateM σ Unit} {s s' : σ} {text text' : String} {a : α} {b : β}

/-- A text was written behind the content, with something yielded, and more can be written. -/
structure Writer.Takes (free : σ → Prop) (content : σ → String) (s : σ) (text : String)
    (yielded : α) (done : Except ε α × σ) : Prop where
  ok : done.1 = .ok yielded
  free : free done.2
  content : content done.2 = content s ++ text

/-- A writer that never refuses a text while it is free to take more. -/
def Writer.Unfailing (free : σ → Prop) (content : σ → String) (write : Writer (StateM σ) ε) :
    Prop :=
  ∀ s, free s → ∀ text, Takes free content s text () ((write text).run s)

/-- Reports that do not write. -/
def Listing.Silent (free : σ → Prop) (content : σ → String)
    (report : Disassembly.Row → StateM σ Unit) : Prop :=
  ∀ r s, free s → free ((report r).run s).2 ∧ content ((report r).run s).2 = content s

theorem Sink.unfailing_write : Writer.Unfailing (fun s => s.room = none) Sink.taken Sink.write := by
  intro s hroom text
  rw [run_write, if_pos (fits_of_room_eq_none hroom text), offer_of_room_eq_none hroom]
  exact ⟨rfl, hroom, rfl⟩

namespace Writer

/-- An action that does not write may come first. -/
theorem Takes.bind_of_silent {first : StateM σ Unit} {next : Unit → StateM σ (Except ε α)}
    (hsame : content (first.run s).2 = content s)
    (h : Takes free content (first.run s).2 text a ((next ()).run (first.run s).2)) :
    Takes free content s text a ((first >>= next).run s) :=
  ⟨h.ok, h.free, h.content.trans (congrArg (· ++ text) hsame)⟩

/-- Behind what was taken, writing goes on. -/
theorem Takes.bind {first : StateM σ (Except ε α)} {next : Except ε α → StateM σ (Except ε β)}
    (h : Takes free content s text a (first.run s))
    (hnext : ∀ s', free s' → Takes free content s' text' b ((next (.ok a)).run s')) :
    Takes free content s (text ++ text') b ((first >>= next).run s) := by
  rw [StateT.run_bind]
  rcases hrun : first.run s with ⟨result, s'⟩
  rw [hrun] at h
  obtain rfl : result = .ok a := h.ok
  obtain ⟨hok, hfree, hcontent⟩ := hnext s' h.free
  have hboth : content ((next (.ok a)).run s').2 = content s ++ (text ++ text') := by
    rw [hcontent, h.content, String.append_assoc]
  exact ⟨hok, hfree, hboth⟩

theorem Unfailing.takes_writeAll (h : Unfailing free content write) (texts : List String) :
    ∀ s, free s → Takes free content s (String.join texts) () ((write.writeAll texts).run s) := by
  induction texts with
  | nil => exact fun s hs => ⟨rfl, hs, String.append_empty.symm⟩
  | cons text texts ih =>
    intro s hs
    rw [writeAll, String.join_cons]
    exact (h s hs text).bind ih

end Writer

namespace Listing

theorem takes_writeRows (h : write.Unfailing free content) (hsilent : Silent free content report)
    (base : Nat) (rows : List Disassembly.Row) (summary : Summary) :
    ∀ s, free s → Writer.Takes free content s (String.join (rows.map (annotatedLine base)))
      (rows.foldl Summary.count summary) ((writeRows report write base rows summary).run s) := by
  induction rows generalizing summary with
  | nil => exact fun s hs => ⟨rfl, hs, String.append_empty.symm⟩
  | cons r rows ih =>
    intro s hs
    obtain ⟨hreported, hsame⟩ := hsilent r s hs
    rw [writeRows, List.map_cons, String.join_cons]
    exact Writer.Takes.bind_of_silent hsame ((h _ hreported _).bind (ih (summary.count r)))

theorem takes_writeTrailing (h : write.Unfailing free content) (program : List UInt8) (base : Nat)
    {summary : Summary} (hsummary : summary.trailing = none) :
    ∀ s, free s → Writer.Takes free content s (String.join (trailingLine? program base).toList)
      { summary with trailing := trailing? program }
      ((writeTrailing program base write summary).run s) := by
  intro s hs
  rw [writeTrailing, trailingLine?]
  cases trailing? program with
  | none =>
    rw [Summary.trailing_none hsummary]
    exact ⟨rfl, hs, String.append_empty.symm⟩
  | some b =>
    rw [Option.map_some, Option.toList_some, String.join_cons, String.join_nil]
    exact (h s hs _).bind fun s' hs' => ⟨rfl, hs', String.append_empty.symm⟩

/-- A writer that never refuses takes the text of the plain listing. -/
theorem takes_dump (h : write.Unfailing free content) (hs : free s) (program : List UInt8)
    (base : UInt16) :
    Writer.Takes free content s (dumped program base) () ((dump program base write).run s) := by
  rw [dumped_eq_join, dump]
  exact h.takes_writeAll _ s hs

/-- A writer that never refuses takes the text of the annotated listing, whatever is reported on the
way. -/
theorem takes_writeAnnotated (h : write.Unfailing free content)
    (hsilent : Silent free content report) (hs : free s) (program : List UInt8) (base : Nat) :
    Writer.Takes free content s (written program base) (summary program)
      ((writeAnnotated program base report write).run s) := by
  have hrows := takes_writeRows h hsilent base (Disassembly.rows program) {} s hs
  rw [written_eq_join, annotated, String.join_append, writeAnnotated, summary_eq]
  exact hrows.bind (takes_writeTrailing h program base (trailing_foldl_count _))

end Listing

end Unfailing

end Chip8
