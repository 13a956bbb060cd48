import Chip8.Lister.Surroundings
import Chip8.Proofs.Writers

/-!
# What is written to

A listing goes to standard output, to standard error or to the place that an output path leads to.
Text is taken by each of them as by a sink, so that it does not matter where a listing is cut. What
is created at a place changes this place only, and afterwards the path leads to what was written:
no path goes through a file, so the way to the place is still what it was.

## Main definitions

* `Surroundings.roomOf`, `Surroundings.refusals` — how much more is taken, and what was not
* `Surroundings.addShown`, `Surroundings.offerShowing` — more was shown on standard error, alone or
  while a text was offered
* `Surroundings.opening` — what is written to at a place, and what that changes
* `Surroundings.fresh` — the surroundings of a run at its start
* `Surroundings.Delivered` — a text is where an output leads to, and nowhere else

## Main results

* `FileTree.find_put_of_findNew` — a path that a file was created under leads to that file
* `Surroundings.seamless_write` — it does not matter where texts are cut
* `Surroundings.commutes_write` — messages can wait until a listing is written
* `Surroundings.run_create`, `Surroundings.contents_create` — what creating a file does
* `Surroundings.delivered_output`, `Surroundings.delivered_opening` — a text that fits is delivered
-/

namespace Chip8.Lister

namespace FileTree

variable {t : FileTree} {text : String} {p q place : Place} {old : Option Node}

/-! ### Ways through a tree -/

/-- Where two actions succeed one behind the other, the first does. -/
theorem exists_of_bind_eq_ok {ε α β : Type} {x : Except ε α} {f : α → Except ε β} {b : β}
    (h : (x >>= f) = .ok b) : ∃ a, x = .ok a ∧ f a = .ok b := by
  cases x with
  | error e => cases h
  | ok a => exact ⟨a, rfl, h⟩

/-- Nothing but a directory stands at the root. -/
theorem ne_nil_of_node?_ne_directory (h : t.node? p ≠ some .directory) : p ≠ [] := by
  rintro rfl
  exact h (if_pos rfl)

/-- A step is taken from a directory. -/
theorem node?_of_step {s : Step} (h : t.step p s = .ok q) : t.node? p = some .directory := by
  unfold step at h
  split at h
  · cases h
  · assumption
  · cases h

theorem eq_of_step_stay (h : t.step p .stay = .ok q) : q = p := by
  unfold step at h
  split at h
  · cases h
  · exact (Except.ok.inj h).symm
  · cases h

theorem walk_cons_eq_ok {s : Step} {steps : List Step} (h : t.walk p (s :: steps) = .ok q) :
    ∃ p', t.step p s = .ok p' ∧ t.walk p' steps = .ok q :=
  exists_of_bind_eq_ok h

theorem walk_append_eq_ok {steps steps' : List Step} (h : t.walk p (steps ++ steps') = .ok q) :
    ∃ p', t.walk p steps = .ok p' ∧ t.walk p' steps' = .ok q := by
  induction steps generalizing p with
  | nil => exact ⟨p, rfl, h⟩
  | cons s steps ih =>
    obtain ⟨p', hstep, hwalk⟩ := walk_cons_eq_ok h
    obtain ⟨p'', hsteps, hrest⟩ := ih hwalk
    refine ⟨p'', ?_, hrest⟩
    rw [walk, hstep]
    exact hsteps

/-- Where a path is left by its last step, a directory has to stand. -/
theorem node?_of_walk_around {path : Path} (h : t.walk p path.around = .ok q) :
    t.node? q = some .directory := by
  obtain ⟨p', -, hlast⟩ := walk_append_eq_ok h
  obtain ⟨p'', hstay, hend⟩ := walk_cons_eq_ok hlast
  obtain rfl : p'' = q := Except.ok.inj hend
  obtain rfl := eq_of_step_stay hstay
  exact node?_of_step hstay

/-- What was put where no directory stood is on no way to anywhere. -/
theorem walk_put (hplace : t.node? place ≠ some .directory) (n : Node) {steps : List Step}
    (h : t.walk p steps = .ok q) : (t.put place n).walk p steps = .ok q := by
  induction steps generalizing p with
  | nil => exact h
  | cons s steps ih =>
    obtain ⟨p', hstep, hwalk⟩ := walk_cons_eq_ok h
    -- a step is taken from a directory, so not from the place in question
    have hne : p ≠ place := by
      rintro rfl
      exact hplace (node?_of_step hstep)
    have hsame : (t.put place n).node? p = t.node? p := by
      rw [node?_put t (ne_nil_of_node?_ne_directory hplace), if_neg hne]
    have hstep' : (t.put place n).step p s = t.step p s := by
      unfold step
      rw [hsame]
    rw [walk, hstep', hstep]
    exact ih hwalk

theorem follow_of_directory (h : t.node? p = some .directory) : t.follow p = p := by
  rw [follow, h]

/-- What was put at a place is meant by whatever meant that place. -/
theorem follow_put (hplace : place ≠ []) (hfollow : t.follow p = place) (bytes : List UInt8) :
    (t.put place (.file bytes)).follow p = place := by
  unfold follow
  rw [node?_put t hplace]
  by_cases hp : p = place
  · rw [if_pos hp]
    exact hp
  · rw [if_neg hp]
    exact hfollow

/-- A path that a file can be created under asks for no directory, and leads to a place where
nothing stands that refuses to be written to. -/
theorem findNew_eq_ok (h : t.findNew text = .ok (place, old)) :
    ∃ path p, Path.ofText text = .ok path ∧ path.wantsDirectory = false ∧
      t.walk (t.start path) path.steps = .ok p ∧ t.follow p = place ∧ t.node? place = old ∧
      old ≠ some .directory ∧ ∀ bytes e, old ≠ some (.barred bytes e) := by
  obtain ⟨path, hpath, h⟩ := exists_of_bind_eq_ok h
  obtain ⟨p, hwalk, h⟩ := exists_of_bind_eq_ok h
  simp only at h
  split at h
  · cases h
  · cases h
  · next hdirectory hbarred =>
    obtain ⟨hplace, rfl⟩ := Prod.mk.inj (Except.ok.inj h)
    rw [hplace] at hdirectory hbarred ⊢
    refine ⟨path, p, hpath, ?_⟩
    -- a path that asks for a directory was walked only up to one, and that was refused
    cases hwants : path.wantsDirectory with
    | true =>
      rw [hwants, if_pos rfl] at hwalk
      have hnode := node?_of_walk_around hwalk
      rw [follow_of_directory hnode] at hplace
      exact absurd (hplace ▸ hnode) hdirectory
    | false =>
      rw [hwants, if_neg Bool.false_ne_true] at hwalk
      exact ⟨rfl, hwalk, hplace, rfl, hdirectory, hbarred⟩

theorem node?_of_findNew (h : t.findNew text = .ok (place, old)) : t.node? place = old := by
  obtain ⟨-, -, -, -, -, -, hnode, -⟩ := findNew_eq_ok h
  exact hnode

theorem ne_nil_of_findNew (h : t.findNew text = .ok (place, old)) : place ≠ [] := by
  obtain ⟨-, -, -, -, -, -, rfl, hdirectory, -⟩ := findNew_eq_ok h
  exact ne_nil_of_node?_ne_directory hdirectory

/-- A path that a file was created under leads to that file. -/
theorem find_put_of_findNew (h : t.findNew text = .ok (place, old)) (bytes : List UInt8) :
    (t.put place (.file bytes)).find text = .ok (.file bytes) := by
  have hplace : place ≠ [] := ne_nil_of_findNew h
  obtain ⟨path, p, hpath, hwants, hwalk, hfollow, rfl, hdirectory, -⟩ := findNew_eq_ok h
  have hnode : (t.put place (.file bytes)).node? place = some (.file bytes) := by
    rw [node?_put t hplace, if_pos rfl]
  have hwalk' : (t.put place (.file bytes)).walk ((t.put place (.file bytes)).start path)
      path.steps = .ok p := walk_put hdirectory _ hwalk
  simp only [find, hpath, hwalk', follow_put hplace hfollow, hnode, hwants, bind, Except.bind]
  rfl

end FileTree

namespace Surroundings

variable {u v : Surroundings} {target : Target} {text : String} {place : Place} {sink : Sink}

/-! ### What targets take -/

theorem run_write (target : Target) (u : Surroundings) (text : String) :
    (write target text).run u =
      (if u.fits text target then .ok () else .error u.refusal, u.offer text target) := rfl

theorem refusal_offer (target : Target) (u : Surroundings) (text : String) :
    (u.offer text target).refusal = u.refusal := by
  cases target <;> rfl

theorem fits_empty (target : Target) (u : Surroundings) : u.fits "" target = true := by
  cases target with
  | output => exact u.output.fits_empty
  | messages => rfl
  | created =>
    rw [fits]
    cases u.created with
    | none => rfl
    | some c => exact c.2.fits_empty

theorem offer_empty (target : Target) (u : Surroundings) : u.offer "" target = u := by
  cases target with
  | output => rw [offer, Sink.offer_empty]
  | messages => rw [offer, String.append_empty]
  | created =>
    obtain ⟨origin, input, refusal, output, _ | ⟨place, sink⟩, shown⟩ := u
    · rfl
    · simp only [offer, Option.map_some, Sink.offer_empty]

theorem fits_append (target : Target) (u : Surroundings) (text text' : String) :
    u.fits (text ++ text') target = (u.fits text target && (u.offer text target).fits text' target)
    := by
  cases target with
  | output => exact u.output.fits_append text text'
  | messages => rfl
  | created =>
    obtain ⟨origin, input, refusal, output, _ | ⟨place, sink⟩, shown⟩ := u
    · rfl
    · exact sink.fits_append text text'

theorem offer_append_of_fits (h : u.fits text target = true) (text' : String) :
    u.offer (text ++ text') target = (u.offer text target).offer text' target := by
  cases target with
  | output =>
    have hsink : u.output.fits text = true := h
    simp only [offer, Sink.offer_append_of_fits hsink]
  | messages => simp only [offer, String.append_assoc]
  | created =>
    obtain ⟨origin, input, refusal, output, _ | ⟨place, sink⟩, shown⟩ := u
    · rfl
    · have hsink : sink.fits text = true := h
      simp only [offer, Option.map_some, Sink.offer_append_of_fits hsink]

theorem offer_append_of_not_fits (h : u.fits text target = false) (text' : String) :
    u.offer (text ++ text') target = u.offer text target := by
  cases target with
  | output =>
    have hsink : u.output.fits text = false := h
    simp only [offer, Sink.offer_append_of_not_fits hsink]
  | messages => cases h
  | created =>
    obtain ⟨origin, input, refusal, output, _ | ⟨place, sink⟩, shown⟩ := u
    · cases h
    · have hsink : sink.fits text = false := h
      simp only [offer, Option.map_some, Sink.offer_append_of_not_fits hsink]

/-- It does not matter where texts are cut. -/
theorem seamless_write (target : Target) : Writer.Seamless (write target) :=
  Writer.seamless_of_offer (run_write target) (refusal_offer target) (fits_empty target)
    (offer_empty target) (fits_append target) offer_append_of_fits offer_append_of_not_fits

/-- How many more characters a target takes; without a number, any number. -/
def roomOf (u : Surroundings) : Target → Option Nat
  | .output => u.output.room
  | .messages => none
  | .created => u.created.bind fun (_, sink) => sink.room

/-- How many writes to standard output and to what was created were refused. -/
def refusals (u : Surroundings) : Nat :=
  u.output.failures + (u.created.map fun (_, sink) => sink.failures).getD 0

theorem fits_iff (u : Surroundings) (text : String) (target : Target) :
    u.fits text target = true ↔ ∀ room, u.roomOf target = some room → text.length ≤ room := by
  cases target with
  | output => exact Sink.fits_iff u.output text
  | messages => exact iff_of_true rfl fun _ h => nomatch h
  | created =>
    obtain ⟨origin, input, refusal, output, _ | ⟨place, sink⟩, shown⟩ := u
    · exact iff_of_true rfl fun _ h => nomatch h
    · exact Sink.fits_iff sink text

/-- A text that does not fit is refused once. -/
theorem refusals_offer (u : Surroundings) (text : String) (target : Target) :
    (u.offer text target).refusals =
      if u.fits text target then u.refusals else u.refusals + 1 := by
  cases target with
  | output =>
    cases hfits : u.output.fits text with
    | true => simp only [refusals, offer, fits, Sink.failures_offer, hfits, if_true]
    | false => simp only [refusals, offer, fits, Sink.failures_offer, hfits, Bool.false_eq_true,
        if_false, Nat.add_right_comm]
  | messages => rfl
  | created =>
    obtain ⟨origin, input, refusal, output, _ | ⟨place, sink⟩, shown⟩ := u
    · rfl
    · cases hfits : sink.fits text with
      | true => simp [refusals, offer, fits, Sink.failures_offer, hfits]
      | false => simp [refusals, offer, fits, Sink.failures_offer, hfits, Nat.add_assoc]

/-! ### What is shown meanwhile -/

/-- More was shown on standard error. -/
def addShown (u : Surroundings) (text : String) : Surroundings :=
  { u with shown := u.shown ++ text }

@[simp] theorem addShown_empty (u : Surroundings) : u.addShown "" = u := by
  rw [addShown, String.append_empty]

theorem addShown_addShown (u : Surroundings) (text text' : String) :
    (u.addShown text).addShown text' = u.addShown (text ++ text') := by
  rw [addShown, addShown, addShown, String.append_assoc]

theorem fits_addShown (u : Surroundings) (shown text : String) (target : Target) :
    (u.addShown shown).fits text target = u.fits text target := by
  cases target <;> rfl

/-- What is written does not depend on what was shown, except where both go the same way. -/
theorem offer_addShown (hne : target ≠ .messages) (u : Surroundings) (shown text : String) :
    (u.addShown shown).offer text target = (u.offer text target).addShown shown := by
  cases target with
  | messages => exact absurd rfl hne
  | output => rfl
  | created => rfl

/-- A text was offered to a target, and this is what was shown meanwhile on standard error. -/
def offerShowing (u : Surroundings) (text : String) (target : Target) (shown : String) :
    Surroundings :=
  { u.offer text target with shown := u.shown ++ shown }

theorem addShown_offerShowing (u : Surroundings) (text : String) (target : Target)
    (before shown : String) :
    (u.addShown before).offerShowing text target shown =
      u.offerShowing text target (before ++ shown) := by
  rw [offerShowing, offerShowing, ← String.append_assoc]
  cases target <;> rfl

theorem offerShowing_addShown (u : Surroundings) (text : String) (target : Target)
    (shown behind : String) :
    (u.offerShowing text target shown).addShown behind =
      u.offerShowing text target (shown ++ behind) := by
  rw [offerShowing, offerShowing, ← String.append_assoc]
  rfl

/-- Where nothing was refused before, nothing is refused exactly if the text fits. -/
theorem refusals_offerShowing_eq_zero_iff (h : u.refusals = 0) (text : String) (target : Target)
    (shown : String) :
    (u.offerShowing text target shown).refusals = 0 ↔ u.fits text target = true := by
  have hoffer : (u.offerShowing text target shown).refusals =
      if u.fits text target then u.refusals else u.refusals + 1 := u.refusals_offer text target
  rw [hoffer, h]
  split
  · next hfits => exact iff_of_true rfl hfits
  · next hfull => exact iff_of_false (Nat.succ_ne_zero 0) hfull

/-- Messages can come before or after what is written, except where both go the same way. -/
theorem commutes_write (hne : target ≠ .messages) {action : StateM Surroundings Unit}
    {shown : String} (haction : ∀ u, action.run u = ((), u.addShown shown)) :
    (write target).Commutes action := by
  refine fun text => StateT.ext fun u => ?_
  calc (do action; write target text : StateM Surroundings _).run u
      = (write target text).run (u.addShown shown) := by
        rw [StateT.run_bind, haction]
        rfl
    _ = (if u.fits text target then .ok () else .error u.refusal,
          (u.offer text target).addShown shown) := by
        rw [run_write, fits_addShown, offer_addShown hne]
        rfl
    _ = (do let result ← write target text; action; pure result : StateM Surroundings _).run u := by
        rw [StateT.run_bind, run_write]
        exact congrArg (Prod.mk _) (congrArg Prod.snd (haction _)).symm

/-! ### Opening a place -/

/-- What is written to, and what that changes, at a place where no directory stands. -/
def opening (u : Surroundings) (place : Place) : Option Node → Target × Surroundings
  | some (.stream .output) => (.output, u)
  | some (.stream .messages) => (.messages, u)
  | old => (.created, u.createAt place old)

theorem shown_opening (u : Surroundings) (place : Place) (old : Option Node) :
    (u.opening place old).2.shown = u.shown := by
  rcases old with _ | _ | _ | _ | (_ | _ | _) | _ <;> rfl

/-- What was shown before does not matter for what is opened. -/
theorem opening_addShown (u : Surroundings) (shown : String) (place : Place) (old : Option Node) :
    (u.addShown shown).opening place old =
      ((u.opening place old).1, (u.opening place old).2.addShown shown) := by
  rcases old with _ | _ | _ | _ | (_ | _ | _) | _ <;> rfl

/-- Creating a file changes nothing if the path leads nowhere. -/
theorem run_create (u : Surroundings) (text : String) :
    (create text).run u =
      match u.tree.findNew text with
      | .error e => (.error e, u)
      | .ok (place, old) => (.ok (u.opening place old).1, (u.opening place old).2) := by
  rw [create, StateT.run_bind, StateT.run_get, pure_bind]
  cases hfound : u.tree.findNew text with
  | error e => rfl
  | ok found =>
    obtain ⟨place, old⟩ := found
    rcases old with _ | _ | _ | _ | (_ | _ | _) | _ <;> rfl

/-! ### The tree afterwards -/

/-- A created file stands where nothing or another file stood. -/
theorem tree_of_file (hcreated : u.created = some (place, sink)) {old : Option Node}
    (hold : u.origin.node? place = old) (hfile : old = none ∨ ∃ bytes, old = some (.file bytes)) :
    u.tree = u.origin.put place (.file sink.taken.toUTF8.toList) := by
  rw [tree, hcreated]
  rcases hfile with rfl | ⟨bytes, rfl⟩
  · simp only [hold]
  · simp only [hold]

theorem contents_of_file (hcreated : u.created = some (place, sink)) {old : Option Node}
    (hfound : u.origin.findNew text = .ok (place, old))
    (hfile : old = none ∨ ∃ bytes, old = some (.file bytes)) :
    u.contents text = some sink.taken.toUTF8.toList := by
  have hold := FileTree.node?_of_findNew hfound
  rw [contents, tree_of_file hcreated hold hfile, FileTree.find_put_of_findNew hfound]

theorem node?_tree_of_file (hcreated : u.created = some (place, sink)) {old : Option Node}
    (hfound : u.origin.findNew text = .ok (place, old))
    (hfile : old = none ∨ ∃ bytes, old = some (.file bytes)) (q : Place) :
    u.tree.node? q =
      if q = place then some (.file sink.taken.toUTF8.toList) else u.origin.node? q := by
  have hold := FileTree.node?_of_findNew hfound
  rw [tree_of_file hcreated hold hfile, FileTree.node?_put _ (FileTree.ne_nil_of_findNew hfound)]

/-- Devices and streams stay what they are. -/
theorem tree_of_device (hcreated : u.created = some (place, sink)) {room : Option Nat}
    (hold : u.origin.node? place = some (.device room)) : u.tree = u.origin := by
  rw [tree, hcreated]
  simp only [hold]

theorem tree_of_stream (hcreated : u.created = some (place, sink)) {stream : Stream}
    (hold : u.origin.node? place = some (.stream stream)) : u.tree = u.origin := by
  rw [tree, hcreated]
  simp only [hold]

/-- Creating a file empties it, also by the name of a stream that is redirected to it. -/
theorem contents_create (hnew : u.created = none) {bytes : List UInt8}
    (hfound : u.origin.findNew text = .ok (place, some (.file bytes))) :
    ((create text).run u).2.contents text = some [] := by
  have htree : u.tree = u.origin := by rw [tree, hnew]
  have hcreated : (u.createAt place (some (.file bytes))).created = some (place, _) := rfl
  have hempty : "".toUTF8.toList = [] := by simp
  rw [run_create, htree, hfound, ← hempty]
  exact contents_of_file hcreated hfound (.inr ⟨bytes, rfl⟩)

/-! ### What is delivered -/

/-- The surroundings of a run at its start: nothing was written or shown yet. -/
def fresh (origin : FileTree) (input : Except OsError (List UInt8)) (refusal : OsError)
    (room : Option Nat) : Surroundings :=
  { origin, input, refusal, output := { room } }

/-- A text was delivered whole to an output, and went nowhere else. Without an output path it is on
standard output, and no file changed. With one, it was written to what is under the path, nothing
else changed, and standard output is empty; only if the path is the name of standard output or
standard error, and these are pipes or terminals, the text went there. A file under the path was
emptied first and holds the text, unless messages go to it as well. -/
def Delivered (origin : FileTree) (path : Option String) (text : String) (after : Surroundings) :
    Prop :=
  match path with
  | none => after.output.taken = text ∧ after.tree = origin
  | some path =>
    match origin.findNew path with
    | .error _ => False
    | .ok (_, some (.stream .output)) => after.output.taken = text ∧ after.tree = origin
    | .ok (_, some (.stream .messages)) => after.output.taken = "" ∧ after.tree = origin
    | .ok (place, some (.stream .input)) | .ok (place, some (.device _)) =>
      after.output.taken = "" ∧ after.tree = origin ∧
        ∃ sink, after.created = some (place, sink) ∧ sink.taken = text
    | .ok (place, _) =>
      after.output.taken = "" ∧ (∀ q, q ≠ place → after.tree.node? q = origin.node? q) ∧
        (∃ sink, after.created = some (place, sink) ∧ sink.taken = text) ∧
        (origin.redirected.lookup .messages ≠ some place →
          after.contents path = some text.toUTF8.toList)

variable {origin : FileTree} {input : Except OsError (List UInt8)} {refusal : OsError}
  {room : Option Nat} {old : Option Node}

theorem refusals_opening (place : Place) (old : Option Node) :
    ((fresh origin input refusal room).opening place old).2.refusals = 0 := by
  rcases old with _ | _ | _ | _ | (_ | _ | _) | _ <;> rfl

theorem taken_offer_new {text : String} (h : ({ room } : Sink).fits text = true) :
    (({ room } : Sink).offer text).taken = text := by
  rw [Sink.taken_offer_of_fits h]
  exact String.empty_append

theorem delivered_output (h : ({ room } : Sink).fits text = true) (shown : String) :
    Delivered origin none text
      ((fresh origin input refusal room).offerShowing text .output shown) :=
  ⟨taken_offer_new h, rfl⟩

theorem delivered_file {path : String} (hfound : origin.findNew path = .ok (place, old))
    (hfile : old = none ∨ ∃ bytes, old = some (.file bytes)) {text : String}
    (hfits : ((fresh origin input refusal room).createAt place old).fits text .created = true)
    (shown : String) :
    let after :=
      ((fresh origin input refusal room).createAt place old).offerShowing text .created shown
    after.output.taken = "" ∧ (∀ q, q ≠ place → after.tree.node? q = origin.node? q) ∧
      (∃ sink, after.created = some (place, sink) ∧ sink.taken = text) ∧
      (origin.redirected.lookup .messages ≠ some place →
        after.contents path = some text.toUTF8.toList) := by
  intro after
  have hcreated : after.created = some (place, _) := rfl
  have htaken := taken_offer_new hfits
  have hcontents := contents_of_file hcreated hfound hfile
  rw [htaken] at hcontents
  refine ⟨rfl, fun q hq => ?_, ⟨_, hcreated, htaken⟩, fun _ => hcontents⟩
  rw [node?_tree_of_file hcreated hfound hfile, if_neg hq]
  rfl

/-- A text that fits is delivered to the place that was opened for it. -/
theorem delivered_opening {path : String} (hfound : origin.findNew path = .ok (place, old))
    (hfits : ((fresh origin input refusal room).opening place old).2.fits text
      ((fresh origin input refusal room).opening place old).1 = true) (shown : String) :
    Delivered origin (some path) text
      (((fresh origin input refusal room).opening place old).2.offerShowing text
        ((fresh origin input refusal room).opening place old).1 shown) := by
  obtain ⟨-, -, -, -, -, -, hold, hdirectory, hbarred⟩ := FileTree.findNew_eq_ok hfound
  simp only [Delivered, hfound]
  cases old with
  | none => exact delivered_file hfound (.inl rfl) hfits shown
  | some n =>
    cases n with
    | file bytes => exact delivered_file hfound (.inr ⟨bytes, rfl⟩) hfits shown
    | directory => exact absurd rfl hdirectory
    | barred bytes e => exact absurd rfl (hbarred bytes e)
    | device deviceRoom =>
      exact ⟨rfl, tree_of_device rfl hold, _, rfl, taken_offer_new hfits⟩
    | stream stream =>
      cases stream with
      | input => exact ⟨rfl, tree_of_stream rfl hold, _, rfl, taken_offer_new hfits⟩
      | output => exact ⟨taken_offer_new hfits, rfl⟩
      | messages => exact ⟨rfl, rfl⟩

end Surroundings

end Chip8.Lister
