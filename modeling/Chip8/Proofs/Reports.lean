import Chip8.Lister.Run
import Chip8.Lister.Surroundings

/-!
# Reading and reporting

The actions of a run follow one another until one of them fails. Reading a program changes nothing,
and what is reported is shown on standard error, as far as it is grave enough; warnings always are.

## Main definitions

* `Lister.reported` — notices as they are shown
* `Lister.Reads`, `Lister.WarnsOfCut` — a run reads a program, and warns that it is too long

## Main results

* `Lister.run_bind_of_ok`, `Lister.run_bind_of_error` — one action behind another
* `Lister.run_attempt` — what an attempt does
* `Lister.run_reportAll` — what reporting shows
* `Lister.run_readProgram` — reading changes nothing
-/

namespace Chip8.Lister

open Surroundings (host)

variable {α β : Type} {u v : Surroundings} {s : Settings}

/-! ### Actions that can fail -/

/-- An action that succeeds is followed by the next one. -/
theorem run_bind_of_ok {action : ExceptT Failure (StateM Surroundings) α}
    {next : α → ExceptT Failure (StateM Surroundings) β} {a : α}
    (h : action.run.run u = (.ok a, v)) :
    (action >>= next).run.run u = (next a).run.run v := by
  rw [ExceptT.run_bind, StateT.run_bind, h]
  rfl

/-- An action that fails is the last one. -/
theorem run_bind_of_error {action : ExceptT Failure (StateM Surroundings) α}
    {next : α → ExceptT Failure (StateM Surroundings) β} {f : Failure}
    (h : action.run.run u = (.error f, v)) :
    (action >>= next).run.run u = (.error f, v) := by
  rw [ExceptT.run_bind, StateT.run_bind, h]
  rfl

theorem run_lift {action : StateM Surroundings α} {a : α} (h : action.run u = (a, v)) :
    (ExceptT.lift action : ExceptT Failure (StateM Surroundings) α).run.run u = (.ok a, v) := by
  change (Except.ok (action.run u).1, (action.run u).2) = _
  rw [h]

/-- An attempt does what is attempted, and names its stage if that fails. -/
theorem run_attempt (stage : Stage) (action : StateM Surroundings (Except OsError α))
    (u : Surroundings) :
    (attempt stage action).run.run u =
      ((action.run u).1.mapError (Failure.mk stage), (action.run u).2) := by
  have hlift : (liftM action : ExceptT Failure (StateM Surroundings) _).run.run u =
      (.ok (action.run u).1, (action.run u).2) := run_lift rfl
  rw [attempt, run_bind_of_ok hlift]
  cases (action.run u).1 with
  | ok a => rfl
  | error e => rfl

/-! ### Reports -/

/-- A notice as it is shown, if it is grave enough. -/
def Notice.shown (s : Settings) (n : Notice) : String :=
  if s.threshold.isShown n.level then n.line else ""

/-- Notices as they are shown. -/
def reported (s : Settings) (ns : List Notice) : String := String.join (ns.map (Notice.shown s))

theorem run_report (s : Settings) (n : Notice) (u : Surroundings) :
    (report host s n).run u = ((), { u with shown := u.shown ++ n.shown s }) := by
  rw [report, Notice.shown]
  split
  · rfl
  · rw [String.append_empty]
    rfl

/-- Warnings are shown however few messages were asked for. -/
theorem warn_isShown (s : Settings) : s.threshold.isShown .warn = true := by
  rw [Settings.threshold]
  split <;> rfl

/-- Notices are shown one behind the other. -/
theorem run_reportAll (s : Settings) (ns : List Notice) (u : Surroundings) :
    (reportAll host s ns).run u = ((), { u with shown := u.shown ++ reported s ns }) := by
  induction ns generalizing u with
  | nil =>
    rw [reported, List.map_nil, String.join_nil, String.append_empty]
    rfl
  | cons n ns ih =>
    rw [reported, List.map_cons, String.join_cons, ← String.append_assoc]
    refine (StateT.run_bind _ _ _).trans ?_
    rw [run_report]
    exact ih _

/-! ### Programs -/

/-- Reading leaves the surroundings as they are. -/
theorem run_readProgram (s : Settings) (u : Surroundings) :
    ∃ result, (readProgram host s).run.run u = (result, u) := by
  rw [readProgram]
  split
  · exact ⟨_, run_attempt _ _ u⟩
  · exact ⟨_, run_attempt _ _ u⟩

/-- A run reads a program. -/
def Reads (s : Settings) (u : Surroundings) (program : List UInt8) : Prop :=
  ((readProgram host s).run.run u).1 = .ok program

/-- A run warns that not all words are listed. -/
def WarnsOfCut (s : Settings) (u : Surroundings) : Prop :=
  ∃ before behind, ((listStatus host s).run u).2.shown =
    u.shown ++ before ++ "WARN: only the first 32768 words are listed\n" ++ behind

/-- What is shown of a program with more words than are listed ends with a warning. -/
theorem reported_noticesBefore_of_long (s : Settings) {program : List UInt8}
    (hlong : 0x10000 < program.length) :
    ∃ before, reported s (noticesBefore program) =
      before ++ "WARN: only the first 32768 words are listed\n" := by
  have hcut : 2 * Disassembly.maxWords < program.length := hlong
  have hshown : Notice.cut.shown s = Notice.cut.line := if_pos (warn_isShown s)
  have hlast : String.join ([Notice.cut].map (Notice.shown s)) =
      "WARN: only the first 32768 words are listed\n" := by
    rw [List.map_singleton, String.join_cons, String.join_nil, String.append_empty, hshown]
    rfl
  rw [reported, noticesBefore, if_pos hcut, List.map_append, String.join_append, hlast]
  exact ⟨_, rfl⟩

end Chip8.Lister
