import Chip8.Proofs.Destinations
import Chip8.Proofs.Reports

/-!
# Transcripts of runs

What a run shows on standard error is a row of entries: notices, and the lines of the listing if it
goes there as well. A run that lists a program shows the notices before the listing, those of its
rows, and then either what was listed or why nothing more could be written. Among its entries, the
warnings depend on the program alone, and the last of them on the success of the run.

## Main definitions

* `Entry`, `Entry.join` — a piece of what is shown, and what pieces show together
* `noticed`, `listingEntries`, `transcript` — the entries of notices, of a listing and of a run
* `closing` — the last notices of a run
* `tooLong`, `oddLength` — the warnings of a program

## Main results

* `warnings_transcript`, `lines_transcript` — the warnings and the lines among the entries of a run
* `transcript_of_quiet` — without being asked for more, a run shows its warnings only
* `run_writeAnnotated` — what writing a listing does to the surroundings
-/

namespace Chip8.Lister

open Disassembly (Row)
open Surroundings (host Target)

variable {s : Settings} {target : Target} {refusal : OsError}

/-! ### Standard error, piece by piece -/

/-- A piece of what is shown on standard error. -/
inductive Entry where
  | notice (n : Notice)
  /-- A line of a listing that goes to standard error. -/
  | line (text : String)
  deriving DecidableEq, Repr

namespace Entry

def text : Entry → String
  | notice n => n.line
  | line text => text

/-- The notice of an entry that is a warning. -/
def warning? : Entry → Option Notice
  | notice n => if n.level = .warn then some n else none
  | line _ => none

/-- The text of an entry that is a line of a listing. -/
def line? : Entry → Option String
  | notice _ => none
  | line text => some text

/-- What entries show together. -/
def join (es : List Entry) : String := String.join (es.map text)

theorem join_append (es es' : List Entry) : join (es ++ es') = join es ++ join es' := by
  rw [join, List.map_append, String.join_append, join, join]

end Entry

/-- The entries of notices: those that are grave enough. -/
def noticed (s : Settings) (ns : List Notice) : List Entry :=
  (ns.filter fun n => s.threshold.isShown n.level).map .notice

/-- The entries of a row, whose line is among them if the listing goes to standard error. -/
def rowEntries (s : Settings) (target : Target) (r : Row) : List Entry :=
  noticed s (if r.isUnknown then [.unknownWord r] else []) ++
    if target = .messages then [.line (Listing.annotatedLine s.base r)] else []

/-- The entries of a listing. -/
def listingEntries (s : Settings) (target : Target) (program : List UInt8) : List Entry :=
  (Disassembly.rows program).flatMap (rowEntries s target) ++
    if target = .messages then (Listing.trailingLine? program s.base).toList.map .line else []

/-- The entries of a run that lists a program and closes with notices. -/
def transcript (s : Settings) (target : Target) (program : List UInt8) (closing : List Notice) :
    List Entry :=
  noticed s (noticesBefore program) ++ listingEntries s target program ++ noticed s closing

/-- The last notices of a run that wrote its listing, or could not. -/
def closing (program : List UInt8) (refusal : OsError) (fits : Bool) : List Notice :=
  if fits then noticesAfter (Listing.summary program) else (Failure.mk .write refusal).notices

/-- What is said of a program that is longer than memory, or than what is listed. -/
def tooLong (program : List UInt8) : List Notice :=
  (if 0xE00 < program.length then [.oversized program.length] else []) ++
    if 0x10000 < program.length then [.cut] else []

/-- What is said of a program whose last byte is listed alone. -/
def oddLength (program : List UInt8) : List Notice :=
  if program.length % 2 = 1 ∧ program.length < 0x10000 then
    (program.getLast?.map Notice.oddByte).toList
  else []

theorem noticed_append (s : Settings) (ns ns' : List Notice) :
    noticed s (ns ++ ns') = noticed s ns ++ noticed s ns' := by
  rw [noticed, List.filter_append, List.map_append, noticed, noticed]

theorem join_noticed (s : Settings) (ns : List Notice) :
    Entry.join (noticed s ns) = reported s ns := by
  induction ns with
  | nil => rfl
  | cons n ns ih =>
    have hns : reported s (n :: ns) = n.shown s ++ reported s ns := by
      rw [reported, List.map_cons, String.join_cons, reported]
    rw [hns, ← ih, noticed, List.filter_cons, Notice.shown]
    split
    · rw [List.map_cons, Entry.join, List.map_cons, String.join_cons]
      rfl
    · rw [String.empty_append]
      rfl

/-- All warnings are shown. -/
theorem warnings_noticed (s : Settings) (ns : List Notice) :
    (noticed s ns).filterMap Entry.warning? = ns.filter fun n => n.level = .warn := by
  have hshown : ∀ n : Notice, (Entry.warning? ∘ Entry.notice) n =
      Option.guard (fun n : Notice => n.level = .warn) n := by
    intro n
    rw [Function.comp_apply, Entry.warning?, Option.guard]
    simp only [decide_eq_true_eq]
  have hkept : ∀ n : Notice, (decide (n.level = .warn) && s.threshold.isShown n.level) =
      decide (n.level = .warn) := by
    intro n
    by_cases hwarn : n.level = .warn
    · rw [hwarn, warn_isShown]
      rfl
    · rw [decide_eq_false hwarn, Bool.false_and]
  rw [noticed, List.filterMap_map, funext hshown, List.filterMap_eq_filter, List.filter_filter]
  simp only [hkept]

theorem lines_noticed (s : Settings) (ns : List Notice) :
    (noticed s ns).filterMap Entry.line? = [] := by
  rw [noticed, List.filterMap_map]
  exact List.filterMap_eq_nil_iff.mpr fun _ _ => rfl

theorem warnings_noticesBefore (program : List UInt8) :
    (noticesBefore program).filter (fun n => n.level = .warn) = tooLong program := by
  have hlimits : tooLong program =
      (if Layout.programCapacity < program.length then [.oversized program.length] else []) ++
        if 2 * Disassembly.maxWords < program.length then [.cut] else [] := rfl
  rw [noticesBefore, hlimits]
  split <;> split <;> rfl

/-- Only a run that wrote its listing warns of a last byte. -/
theorem warnings_closing (program : List UInt8) (refusal : OsError) (fits : Bool) :
    (closing program refusal fits).filter (fun n => n.level = .warn) =
      if fits then oddLength program else [] := by
  have hodd : oddLength program =
      ((Listing.trailing? program).map Notice.oddByte).toList := by
    have htrailing : Listing.trailing? program =
      if program.length % 2 = 1 ∧ program.length < 0x10000 then program.getLast? else none := rfl
    rw [oddLength, htrailing]
    split <;> rfl
  cases fits with
  | true =>
    rw [closing, if_pos rfl, if_pos rfl, hodd, noticesAfter, Listing.summary]
    cases Listing.trailing? program <;> rfl
  | false => rfl

theorem warnings_listingEntries (s : Settings) (target : Target) (program : List UInt8) :
    (listingEntries s target program).filterMap Entry.warning? = [] := by
  have hrow : ∀ r, (rowEntries s target r).filterMap Entry.warning? = [] := by
    intro r
    rw [rowEntries, List.filterMap_append, warnings_noticed]
    split <;> split <;> rfl
  have hrows : ((Disassembly.rows program).flatMap (rowEntries s target)).filterMap
      Entry.warning? = [] := by
    rw [List.filterMap_flatMap]
    exact List.flatMap_eq_nil_iff.mpr fun r _ => hrow r
  rw [listingEntries, List.filterMap_append, hrows, List.nil_append]
  split
  · cases Listing.trailingLine? program s.base <;> rfl
  · rfl

/-- The lines among the entries are those of the listing, if it goes to standard error. -/
theorem lines_listingEntries (s : Settings) (target : Target) (program : List UInt8) :
    (listingEntries s target program).filterMap Entry.line? =
      if target = .messages then Listing.annotated program s.base else [] := by
  have hrow : ∀ r, (rowEntries s target r).filterMap Entry.line? =
      if target = .messages then [Listing.annotatedLine s.base r] else [] := by
    intro r
    rw [rowEntries, List.filterMap_append, lines_noticed, List.nil_append]
    split <;> rfl
  rw [listingEntries, List.filterMap_append, List.filterMap_flatMap]
  simp only [hrow]
  split
  · rw [← List.map_eq_flatMap, Listing.annotated]
    cases Listing.trailingLine? program s.base <;> rfl
  · exact List.append_eq_nil_iff.mpr ⟨List.flatMap_eq_nil_iff.mpr fun _ _ => rfl, rfl⟩

/-- Which warnings a run gives that opened its output, and which lines it shows. -/
theorem warnings_transcript (s : Settings) (target : Target) (program : List UInt8) (fits : Bool) :
    (transcript s target program (closing program refusal fits)).filterMap Entry.warning? =
      tooLong program ++ if fits then oddLength program else [] := by
  rw [transcript, List.filterMap_append, List.filterMap_append, warnings_noticed, warnings_noticed,
    warnings_noticesBefore, warnings_closing, warnings_listingEntries, List.append_nil]

theorem lines_transcript (s : Settings) (target : Target) (program : List UInt8)
    (ns : List Notice) :
    (transcript s target program ns).filterMap Entry.line? =
      if target = .messages then Listing.annotated program s.base else [] := by
  rw [transcript, List.filterMap_append, List.filterMap_append, lines_noticed, lines_noticed,
    lines_listingEntries, List.nil_append, List.append_nil]

/-- Without being asked for more, of notices without an error the warnings are shown only. -/
theorem noticed_of_quiet (hquiet : s.verbosity = 0) {ns : List Notice}
    (herror : ∀ n ∈ ns, n.level ≠ .error) :
    noticed s ns = (ns.filter fun n => n.level = .warn).map .notice := by
  have hthreshold : s.threshold = .warn := by simp only [Settings.threshold, hquiet]
  have hlevel : ∀ l : Log.Level, l ≠ .error → Log.Level.isShown .warn l = decide (l = .warn) := by
    intro l
    cases l <;> decide
  rw [noticed, hthreshold]
  exact congrArg _ (List.filter_congr fun n hn => hlevel _ (herror n hn))

/-- Without being asked for more, a run that writes its listing elsewhere shows its warnings and
nothing else. -/
theorem transcript_of_quiet (hquiet : s.verbosity = 0) (hne : target ≠ .messages)
    (program : List UInt8) :
    transcript s target program (closing program refusal true) =
      (tooLong program ++ oddLength program).map .notice := by
  have hbefore : ∀ n ∈ noticesBefore program, n.level ≠ .error := by
    rw [noticesBefore]
    split <;> split <;> simp [Notice.level]
  have hafter : ∀ n ∈ closing program refusal true, n.level ≠ .error := by
    rw [closing, if_pos rfl, noticesAfter, Listing.summary]
    cases Listing.trailing? program <;> simp [Notice.level]
  have hrow : ∀ r, rowEntries s target r = [] := by
    intro r
    rw [rowEntries, if_neg hne, List.append_nil, noticed_of_quiet hquiet]
    · split <;> rfl
    · split <;> simp [Notice.level]
  have hlisting : listingEntries s target program = [] := by
    rw [listingEntries, if_neg hne, List.append_nil]
    exact List.flatMap_eq_nil_iff.mpr fun r _ => hrow r
  rw [transcript, hlisting, List.append_nil, noticed_of_quiet hquiet hbefore,
    noticed_of_quiet hquiet hafter, warnings_noticesBefore, warnings_closing, if_pos rfl,
    List.map_append]

/-! ### Writing a listing -/

theorem run_reportRow (s : Settings) (r : Row) (u : Surroundings) :
    (reportRow host s r).run u =
      ((), u.addShown (Entry.join (noticed s (if r.isUnknown then [.unknownWord r] else [])))) := by
  rw [reportRow, join_noticed]
  split
  · rw [run_report, reported, List.map_singleton, String.join_cons, String.join_nil,
      String.append_empty]
    rfl
  · exact congrArg (Prod.mk ()) u.addShown_empty.symm

theorem run_forM_reportRow (hne : target ≠ .messages) (s : Settings) (rows : List Row)
    (u : Surroundings) :
    (rows.forM (reportRow host s)).run u =
      ((), u.addShown (Entry.join (rows.flatMap (rowEntries s target)))) := by
  induction rows generalizing u with
  | nil => exact congrArg (Prod.mk ()) u.addShown_empty.symm
  | cons r rows ih =>
    have hrow : rowEntries s target r =
        noticed s (if r.isUnknown then [.unknownWord r] else []) := by
      rw [rowEntries, if_neg hne, List.append_nil]
    refine (StateT.run_bind _ _ _).trans ?_
    rw [run_reportRow, List.flatMap_cons, Entry.join_append, hrow, ← Surroundings.addShown_addShown]
    exact ih _

/-- Rows whose lines go to standard error are shown with them, one by one. -/
theorem run_writeRows_messages (s : Settings) (rows : List Row) (summary : Listing.Summary)
    (u : Surroundings) :
    (Listing.writeRows (reportRow host s) (Surroundings.write .messages) s.base rows summary).run
        u =
      (.ok (rows.foldl Listing.Summary.count summary),
        u.addShown (Entry.join (rows.flatMap (rowEntries s .messages)))) := by
  induction rows generalizing summary u with
  | nil => exact congrArg (Prod.mk _) u.addShown_empty.symm
  | cons r rows ih =>
    have hrow : Entry.join (rowEntries s .messages r) =
        Entry.join (noticed s (if r.isUnknown then [.unknownWord r] else [])) ++
          Listing.annotatedLine s.base r := by
      rw [rowEntries, if_pos rfl, Entry.join_append]
      exact congrArg _ String.empty_append
    rw [Listing.writeRows, StateT.run_bind, run_reportRow, List.flatMap_cons, Entry.join_append,
      hrow, ← Surroundings.addShown_addShown, ← Surroundings.addShown_addShown]
    exact ih _ _

theorem run_writeAnnotated_of_ne (hne : target ≠ .messages) (s : Settings) (program : List UInt8)
    (u : Surroundings) :
    (Listing.writeAnnotated program s.base (reportRow host s) (Surroundings.write target)).run u =
      (if u.fits (Listing.written program s.base) target then .ok (Listing.summary program)
          else .error u.refusal,
        (u.offer (Listing.written program s.base) target).addShown
          (Entry.join (listingEntries s target program))) := by
  have hcomm : ∀ r, (Surroundings.write target).Commutes (reportRow host s r) :=
    fun r => Surroundings.commutes_write hne (run_reportRow s r)
  rw [Listing.writeAnnotated_eq_of_comm (Surroundings.seamless_write target) hcomm,
    ← Listing.written_eq_join, StateT.run_bind, Surroundings.run_write, listingEntries, if_neg hne,
    List.append_nil]
  refine (StateT.run_bind _ _ _).trans ?_
  rw [run_forM_reportRow hne]
  split <;> rfl

theorem run_writeAnnotated_messages (s : Settings) (program : List UInt8) (u : Surroundings) :
    (Listing.writeAnnotated program s.base (reportRow host s)
        (Surroundings.write .messages)).run u =
      (.ok (Listing.summary program),
        u.addShown (Entry.join (listingEntries s .messages program))) := by
  have hjoin : ∀ line? : Option String,
      Entry.join (line?.toList.map .line) = String.join line?.toList := by
    intro line?
    cases line? <;> rfl
  have htrailing := Listing.writeTrailing_eq (Surroundings.seamless_write .messages) program s.base
    (Listing.trailing_foldl_count (Disassembly.rows program))
  rw [← Listing.summary_eq] at htrailing
  rw [Listing.writeAnnotated, StateT.run_bind, run_writeRows_messages, listingEntries, if_pos rfl,
    Entry.join_append, ← Surroundings.addShown_addShown, hjoin]
  exact congrArg (StateT.run · _) htrailing

/-- A listing is taken like its text, and its rows are shown as far as that was asked for. -/
theorem run_writeAnnotated (s : Settings) (target : Target) (program : List UInt8)
    (u : Surroundings) :
    (Listing.writeAnnotated program s.base (reportRow host s) (Surroundings.write target)).run u =
      (if u.fits (Listing.written program s.base) target then .ok (Listing.summary program)
          else .error u.refusal,
        u.offerShowing (Listing.written program s.base) target
          (Entry.join (listingEntries s target program))) := by
  cases target with
  | messages => exact run_writeAnnotated_messages s program u
  | output => exact run_writeAnnotated_of_ne (by decide) s program u
  | created => exact run_writeAnnotated_of_ne (by decide) s program u

theorem run_attempt_write (s : Settings) (target : Target) (program : List UInt8)
    (u : Surroundings) :
    (attempt .write
        (Listing.writeAnnotated program s.base (reportRow host s) (host.write target))).run.run u =
      (if u.fits (Listing.written program s.base) target then .ok (Listing.summary program)
        else .error ⟨.write, u.refusal⟩,
        u.offerShowing (Listing.written program s.base) target
          (Entry.join (listingEntries s target program))) := by
  have hlisting : (Listing.writeAnnotated program s.base (reportRow host s)
      (host.write target)).run u = _ := run_writeAnnotated s target program u
  rw [run_attempt, hlisting]
  split <;> rfl

end Chip8.Lister
