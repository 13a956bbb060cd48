import Chip8.Proofs.Transcripts

/-!
# Runs are all or nothing

A run reads its program, opens its output and writes its listing, in this order, and stops where it
first fails. So a run that fails before its output is open has written nothing and changed no file,
and a run that succeeds has delivered the whole listing to its output and to nothing else. In every
case standard error tells what happened.

## Main definitions

* `Refused` — what holds of a run that could not read its program or open its output
* `Offered` — what holds of a run that opened its output
* `Shows` — what standard error shows

## Main results

* `openOutput_cases` — how an output is opened
* `run_listStatus_of_unread`, `run_listStatus_of_unopened`, `run_listStatus_of_opened` — the three
  ways in which a run can go
* `run_all_or_nothing` — what holds of every run
-/

namespace Chip8.Lister

open Surroundings (host Target)

variable {s : Settings} {u v : Surroundings} {program : List UInt8} {target : Target}

/-! ### Opening the output -/

theorem run_openOutput_of_none (hout : s.output = none) (u : Surroundings) :
    (openOutput host s).run.run u = (.ok .output, u) := by
  rw [openOutput, hout]
  rfl

theorem run_openOutput_of_error {path : String} {e : OsError} (hout : s.output = some path)
    (hfound : u.tree.findNew path = .error e) :
    (openOutput host s).run.run u = (.error ⟨.create path, e⟩, u) := by
  have hcreate : (host.create path).run u = (.error e, u) := by
    refine (Surroundings.run_create u path).trans ?_
    rw [hfound]
  rw [openOutput, hout]
  refine (run_attempt _ _ u).trans ?_
  rw [hcreate]
  rfl

theorem run_openOutput_of_ok {path : String} {place : Place} {old : Option Node}
    (hout : s.output = some path) (hfound : u.tree.findNew path = .ok (place, old)) :
    (openOutput host s).run.run u =
      (.ok (u.opening place old).1, (u.opening place old).2) := by
  have hcreate : (host.create path).run u =
      (.ok (u.opening place old).1, (u.opening place old).2) := by
    refine (Surroundings.run_create u path).trans ?_
    rw [hfound]
  rw [openOutput, hout]
  refine (run_attempt _ _ u).trans ?_
  rw [hcreate]
  rfl

/-- An output is opened in one of three ways: it is standard output, its path leads nowhere, or its
path leads to a place. -/
theorem openOutput_cases (s : Settings) (u : Surroundings) :
    (s.output = none ∧ (openOutput host s).run.run u = (.ok .output, u)) ∨
    (∃ path e, s.output = some path ∧ u.tree.findNew path = .error e ∧
      (openOutput host s).run.run u = (.error ⟨.create path, e⟩, u)) ∨
    ∃ path place old, s.output = some path ∧ u.tree.findNew path = .ok (place, old) ∧
      (openOutput host s).run.run u =
        (.ok (u.opening place old).1, (u.opening place old).2) := by
  cases hout : s.output with
  | none => exact .inl ⟨rfl, run_openOutput_of_none hout u⟩
  | some path =>
    cases hfound : u.tree.findNew path with
    | error e => exact .inr (.inl ⟨path, e, rfl, hfound, run_openOutput_of_error hout hfound⟩)
    | ok found =>
      exact .inr (.inr ⟨path, found.1, found.2, rfl, hfound, run_openOutput_of_ok hout hfound⟩)

/-- What was shown before does not matter for the output. -/
theorem run_openOutput_addShown (s : Settings) (u : Surroundings) (shown : String) :
    (openOutput host s).run.run (u.addShown shown) =
      (((openOutput host s).run.run u).1, ((openOutput host s).run.run u).2.addShown shown) := by
  rcases openOutput_cases s u with ⟨hout, hrun⟩ | ⟨path, e, hout, hfound, hrun⟩ |
    ⟨path, place, old, hout, hfound, hrun⟩
  · rw [hrun, run_openOutput_of_none hout]
  · have hfound' : (u.addShown shown).tree.findNew path = .error e := hfound
    rw [hrun, run_openOutput_of_error hout hfound']
  · have hfound' : (u.addShown shown).tree.findNew path = .ok (place, old) := hfound
    rw [hrun, run_openOutput_of_ok hout hfound', Surroundings.opening_addShown]

/-- An output that cannot be opened leaves everything as it was. -/
theorem run_openOutput_of_failed {f : Failure}
    (h : ((openOutput host s).run.run u).1 = .error f) :
    (openOutput host s).run.run u = (.error f, u) := by
  rcases openOutput_cases s u with ⟨-, hrun⟩ | ⟨path, e, -, -, hrun⟩ |
    ⟨path, place, old, -, -, hrun⟩
  · rw [hrun] at h
    cases h
  · rw [hrun] at h ⊢
    exact congrArg (·, u) h
  · rw [hrun] at h
    cases h

theorem shown_openOutput (s : Settings) (u : Surroundings) :
    ((openOutput host s).run.run u).2.shown = u.shown := by
  rcases openOutput_cases s u with ⟨-, hrun⟩ | ⟨path, e, -, -, hrun⟩ |
    ⟨path, place, old, -, -, hrun⟩
  · rw [hrun]
  · rw [hrun]
  · rw [hrun]
    exact u.shown_opening place old

/-! ### Runs -/

theorem run_readProgram_of_eq {result : Except Failure (List UInt8)}
    (h : ((readProgram host s).run.run u).1 = result) :
    (readProgram host s).run.run u = (result, u) := by
  obtain ⟨result', hrun⟩ := run_readProgram s u
  rw [hrun] at h ⊢
  rw [← h]

theorem run_listStatus_of_ok (h : (list host s).run.run u = (.ok (), v)) :
    (listStatus host s).run u = (0, v) := by
  rw [listStatus, StateT.run_bind, h]
  rfl

theorem run_listStatus_of_error {f : Failure} (h : (list host s).run.run u = (.error f, v)) :
    (listStatus host s).run u = (1, v.addShown (Entry.join (noticed s f.notices))) := by
  rw [listStatus, StateT.run_bind, h]
  refine (StateT.run_bind _ _ _).trans ?_
  rw [run_reportAll, join_noticed]
  rfl

/-- A run that cannot read its program shows why. -/
theorem run_listStatus_of_unread {f : Failure}
    (h : ((readProgram host s).run.run u).1 = .error f) :
    (listStatus host s).run u = (1, u.addShown (Entry.join (noticed s f.notices))) := by
  refine run_listStatus_of_error ?_
  rw [list]
  exact run_bind_of_error (run_readProgram_of_eq h)

theorem run_list_of_read (hread : Reads s u program) :
    (list host s).run.run u = (do
      let target ← openOutput host s
      let summary ← attempt .write
        (Listing.writeAnnotated program s.base (reportRow host s) (host.write target))
      ExceptT.lift (reportAll host s (noticesAfter summary)) :
        ExceptT Failure (StateM Surroundings) Unit).run.run
      (u.addShown (Entry.join (noticed s (noticesBefore program)))) := by
  rw [list, run_bind_of_ok (run_readProgram_of_eq hread),
    run_bind_of_ok (run_lift (run_reportAll ..)), join_noticed]
  rfl

/-- A run that cannot open its output shows what it read and why it failed. -/
theorem run_listStatus_of_unopened {f : Failure} (hread : Reads s u program)
    (hopen : ((openOutput host s).run.run u).1 = .error f) :
    (listStatus host s).run u =
      (1, u.addShown (Entry.join (noticed s (noticesBefore program ++ f.notices)))) := by
  have hrun := run_openOutput_addShown s u (Entry.join (noticed s (noticesBefore program)))
  rw [run_openOutput_of_failed hopen] at hrun
  rw [noticed_append, Entry.join_append, ← Surroundings.addShown_addShown]
  refine run_listStatus_of_error ?_
  rw [run_list_of_read hread]
  exact run_bind_of_error hrun

/-- A run that opened its output offers the listing to it, and shows all its notices. -/
theorem run_listStatus_of_opened (hread : Reads s u program)
    (hopen : (openOutput host s).run.run u = (.ok target, v)) :
    (listStatus host s).run u =
      (if v.fits (Listing.written program s.base) target then 0 else 1,
        v.offerShowing (Listing.written program s.base) target
          (Entry.join (transcript s target program
            (closing program v.refusal (v.fits (Listing.written program s.base) target))))) := by
  have hrun := run_openOutput_addShown s u (Entry.join (noticed s (noticesBefore program)))
  rw [hopen] at hrun
  have hwrite := run_attempt_write s target program
    (v.addShown (Entry.join (noticed s (noticesBefore program))))
  rw [Surroundings.fits_addShown, Surroundings.addShown_offerShowing, ← Entry.join_append]
    at hwrite
  rw [transcript, Entry.join_append, ← Surroundings.offerShowing_addShown]
  cases hfits : v.fits (Listing.written program s.base) target with
  | true =>
    rw [hfits] at hwrite
    refine run_listStatus_of_ok ?_
    rw [run_list_of_read hread, run_bind_of_ok hrun, run_bind_of_ok hwrite, closing, if_pos rfl,
      join_noticed]
    exact run_lift (run_reportAll ..)
  | false =>
    rw [hfits] at hwrite
    refine run_listStatus_of_error ?_
    rw [run_list_of_read hread, run_bind_of_ok hrun]
    exact run_bind_of_error hwrite

/-- A run that reads a program shows its notices, whatever happens afterwards. -/
theorem shown_listStatus_of_read (hread : Reads s u program) :
    ∃ more, ((listStatus host s).run u).2.shown =
      u.shown ++ reported s (noticesBefore program) ++ more := by
  rcases hopen : (openOutput host s).run.run u with ⟨f | target, v⟩
  · have hfailed : ((openOutput host s).run.run u).1 = .error f := congrArg Prod.fst hopen
    refine ⟨reported s f.notices, ?_⟩
    rw [run_listStatus_of_unopened hread hfailed, noticed_append, Entry.join_append, join_noticed,
      join_noticed, ← Surroundings.addShown_addShown]
    rfl
  · have hshown : v.shown = u.shown := by
      rw [← shown_openOutput s u, hopen]
    refine ⟨Entry.join (listingEntries s target program ++ noticed s
      (closing program v.refusal (v.fits (Listing.written program s.base) target))), ?_⟩
    rw [run_listStatus_of_opened hread hopen, Surroundings.offerShowing, transcript,
      List.append_assoc, Entry.join_append, join_noticed, hshown, ← String.append_assoc]

/-- A run that reads more words than are listed warns of it, whatever happens afterwards. -/
theorem warnsOfCut_of_long (hread : Reads s u program)
    (hlong : 0x10000 < program.length) : WarnsOfCut s u := by
  obtain ⟨before, hbefore⟩ := reported_noticesBefore_of_long s hlong
  obtain ⟨behind, hshown⟩ := shown_listStatus_of_read hread
  refine ⟨before, behind, ?_⟩
  rw [hshown, hbefore, ← String.append_assoc]

/-! ### All or nothing -/

/-- A run ended before it opened an output: it wrote nothing and changed no file. -/
structure Refused (origin : FileTree) (status : UInt32) (after : Surroundings) : Prop where
  status_eq : status = 1
  output_empty : after.output.taken = ""
  tree_eq : after.tree = origin

/-- Standard error shows entries; these are the warnings and the lines of the listing among them. -/
structure Shows (after : Surroundings) (entries : List Entry) (warnings : List Notice)
    (lines : List String) : Prop where
  shown_eq : after.shown = Entry.join entries
  warnings_eq : entries.filterMap Entry.warning? = warnings
  lines_eq : entries.filterMap Entry.line? = lines

/-- A run opened an output, with `opened` around it then, and offered its listing to it. -/
structure Offered (origin : FileTree) (s : Settings) (program : List UInt8) (target : Target)
    (opened : Surroundings) (status : UInt32) (after : Surroundings) : Prop where
  status_cases : status = 0 ∨ status = 1
  /-- The run succeeds exactly if no write was refused. -/
  status_eq_zero_iff : status = 0 ↔ after.refusals = 0
  /-- No write is refused exactly if there is room for the whole listing. -/
  status_eq_zero_iff_room : status = 0 ↔
    ∀ room, opened.roomOf target = some room → (Listing.written program s.base).length ≤ room
  /-- An output that takes nothing fails exactly if there is something to list. -/
  status_of_full :
    opened.roomOf target = some 0 → (status = 1 ↔ Listing.written program s.base ≠ "")
  /-- On success the listing is where it should be, and only there. -/
  delivered : status = 0 →
    Surroundings.Delivered origin s.output (Listing.written program s.base) after
  /-- What is shown, of which the listing is part only if it goes to standard error. -/
  shows : Shows after (transcript s target program (closing program opened.refusal (status = 0)))
    (tooLong program ++ if status = 0 then oddLength program else [])
    (if target = .messages then Listing.annotated program s.base else [])
  /-- A run that succeeds says nothing else, unless it was asked to. -/
  quiet : status = 0 → s.verbosity = 0 → target ≠ .messages →
    after.shown = Entry.join ((tooLong program ++ oddLength program).map .notice)

section

variable {origin : FileTree} {input : Except OsError (List UInt8)} {refusal : OsError}
  {room : Option Nat} {opened : Surroundings}

theorem refused_of_run {ns : List Notice}
    (hrun : (listStatus host s).run (.fresh origin input refusal room) =
      (1, (Surroundings.fresh origin input refusal room).addShown (Entry.join (noticed s ns)))) :
    Refused origin ((listStatus host s).run (.fresh origin input refusal room)).1
        ((listStatus host s).run (.fresh origin input refusal room)).2 ∧
      Shows ((listStatus host s).run (.fresh origin input refusal room)).2 (noticed s ns)
        (ns.filter fun n => n.level = .warn) [] := by
  rw [hrun]
  exact ⟨⟨rfl, rfl, rfl⟩, String.empty_append, warnings_noticed s ns, lines_noticed s ns⟩

/-- What an output that was opened has around it: nothing was refused or shown yet, and a text that
fits will be delivered. -/
theorem opened_of_openOutput
    (hopen : (openOutput host s).run.run (.fresh origin input refusal room) =
      (.ok target, opened)) :
    opened.refusals = 0 ∧ opened.shown = "" ∧
      ∀ text shown, opened.fits text target = true →
        Surroundings.Delivered origin s.output text (opened.offerShowing text target shown) := by
  rcases openOutput_cases s (.fresh origin input refusal room) with
    ⟨hout, hrun⟩ | ⟨path, e, -, -, hrun⟩ | ⟨path, place, old, hout, hfound, hrun⟩
  · obtain ⟨htarget, rfl⟩ := Prod.mk.inj (hrun.symm.trans hopen)
    obtain rfl := Except.ok.inj htarget
    rw [hout]
    exact ⟨rfl, rfl, fun text shown hfits => Surroundings.delivered_output hfits shown⟩
  · cases hrun.symm.trans hopen
  · obtain ⟨htarget, rfl⟩ := Prod.mk.inj (hrun.symm.trans hopen)
    obtain rfl := Except.ok.inj htarget
    rw [hout]
    exact ⟨Surroundings.refusals_opening place old, Surroundings.shown_opening _ place old,
      fun text shown hfits => Surroundings.delivered_opening hfound hfits shown⟩

theorem offered_of_opened (hread : Reads s (.fresh origin input refusal room) program)
    (hopen : (openOutput host s).run.run (.fresh origin input refusal room) =
      (.ok target, opened)) :
    Offered origin s program target opened
      ((listStatus host s).run (.fresh origin input refusal room)).1
      ((listStatus host s).run (.fresh origin input refusal room)).2 := by
  obtain ⟨hrefusals, hshown, hdelivered⟩ := opened_of_openOutput hopen
  -- the status says whether the listing fits, which is what all the conditions come down to
  have hzero : ∀ fits : Bool, (if fits then (0 : UInt32) else 1) = 0 ↔ fits = true := by decide
  have hone : ∀ fits : Bool, (if fits then (0 : UInt32) else 1) = 1 ↔ fits ≠ true := by decide
  have hroom := opened.fits_iff (Listing.written program s.base) target
  rw [run_listStatus_of_opened hread hopen]
  refine ⟨?_, ?_, (hzero _).trans hroom, fun hfull => (hone _).trans (not_congr ?_),
    fun h => hdelivered _ _ ((hzero _).mp h), ⟨?_, ?_, lines_transcript s target program _⟩,
    fun h hquiet hne => ?_⟩
  · split
    · exact .inl rfl
    · exact .inr rfl
  · exact (hzero _).trans (Surroundings.refusals_offerShowing_eq_zero_iff hrefusals ..).symm
  · rw [hroom]
    constructor
    · intro hle
      exact String.length_eq_zero_iff.mp (Nat.le_zero.mp (hle 0 hfull))
    · intro hempty room _
      rw [hempty]
      exact Nat.zero_le room
  · rw [Surroundings.offerShowing, hshown, String.empty_append]
    simp only [hzero, Bool.decide_eq_true]
  · simp only [hzero, Bool.decide_eq_true]
    exact warnings_transcript s target program _
  · rw [Surroundings.offerShowing, hshown, String.empty_append, (hzero _).mp h,
      transcript_of_quiet hquiet hne]

end

/-- A directory in which standard output and standard error have names; standard output is a pipe,
and standard error goes to a file. -/
def streamTree : FileTree where
  nodes := [(["dev"], .directory), (["dev", "stdout"], .stream .output),
    (["dev", "stderr"], .stream .messages), (["err"], .file [0x21])]
  home := []
  redirected := [(.messages, ["err"])]

/-- Named as the output, standard error is opened anew: its file loses what it held. -/
example :
    let done := (listStatus host { output := some "/dev/stderr" }).run
      (.fresh streamTree (.ok [0x00, 0xE0]) .noSpace none)
    done.1 = 0 ∧ done.2.shown = "" ∧
      done.2.contents "err" = some "000  00E0  CLS\n".toUTF8.toList := by
  decide +kernel

/-- On a full disk a file is left with the first part of the listing, and the run fails. -/
example :
    let done := (listStatus host { output := some "out" }).run
      (.fresh { streamTree with room := some 9 } (.ok [0x00, 0xE0]) .noSpace none)
    done.1 = 1 ∧ done.2.contents "out" = some "000  00E0".toUTF8.toList ∧
      done.2.shown = "ERROR: could not write listing\n" ++
        "ERROR:   caused by: No space left on device (os error 28)\n" := by
  decide +kernel

end Chip8.Lister
