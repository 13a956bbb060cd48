import Mathlib.Algebra.Group.Nat.Defs
import Chip8.Hex

/-!
# Lines and columns

A listing is a text of lines, and a line has columns. Both can be told apart again: a line ends at
its line feed, and two blanks stand between columns. This works because nothing that is written
into a column has a blank or a line feed in it, least of all a number.

## Main definitions

* `Text.separates`, `Text.Solid` — the characters that set things apart, and texts without them
* `Text.OneLine`, `Text.lines` — texts without a line feed, and the lines of a text
* `Text.column` — a column of a line
* `Text.parts` — what separators set apart in a text

## Main results

* `Hex.length_padded` — a number that fits is written with exactly as many digits as asked for
* `Text.lines_join` — the lines that a text is made of
* `Text.column_one` — the second column of a line
* `Text.parts_append_cons`, `Text.parts_intercalate` — the parts of what is put together
-/

namespace Chip8

namespace Hex

/-! ### The digits of a number -/

theorem length_digits_le {n k : Nat} (h : n < 16 ^ (k + 1)) : (digits n).length ≤ k + 1 := by
  induction k generalizing n with
  | zero =>
    have hn : n < 16 := h
    rw [digits, if_pos hn]
    exact Nat.le_refl 1
  | succ k ih =>
    rw [digits]
    split
    · exact Nat.succ_le_succ (Nat.zero_le _)
    · have hquotient : n / 16 < 16 ^ (k + 1) := Nat.div_lt_of_lt_mul (by rwa [Nat.pow_succ'] at h)
      rw [List.length_append]
      exact Nat.succ_le_succ (ih hquotient)

/-- A number below a power of sixteen is written with exactly that many digits. -/
theorem length_padded {n k : Nat} (h : n < 16 ^ (k + 1)) : (padded (k + 1) n).length = k + 1 := by
  rw [padded, List.length_leftpad]
  exact Nat.max_eq_left (length_digits_le h)

theorem digit_mem_alphabet {d : Nat} (h : d < 16) : digit d ∈ alphabet := by
  have key : ∀ d : Fin 16, digit d ∈ alphabet := by decide
  exact key ⟨d, h⟩

theorem mem_alphabet_of_mem_digits {n : Nat} {c : Char} (h : c ∈ digits n) : c ∈ alphabet := by
  induction n using Nat.strongRecOn with
  | ind n ih =>
    rw [digits] at h
    split at h
    · next hn =>
      rw [List.mem_singleton] at h
      rw [h]
      exact digit_mem_alphabet hn
    · rcases List.mem_append.mp h with hhigh | hlow
      · exact ih (n / 16) (by omega) hhigh
      · rw [List.mem_singleton] at hlow
        rw [hlow]
        exact digit_mem_alphabet (Nat.mod_lt n (by decide))

/-- A number is written with digits of the alphabet only. -/
theorem mem_alphabet_of_mem_text {width n : Nat} {c : Char} (h : c ∈ (text width n).toList) :
    c ∈ alphabet := by
  rw [text, String.toList_ofList, padded, List.leftpad, List.mem_append] at h
  rcases h with hzero | hdigit
  · rw [List.eq_of_mem_replicate hzero]
    exact List.mem_cons_self
  · exact mem_alphabet_of_mem_digits hdigit

end Hex

namespace Text

variable {c : Char}

/-! ### Separators -/

/-- Whether a character sets lines, columns or operands apart. -/
def separates (c : Char) : Bool := c = '\n' || c = ' ' || c = ','

/-- Nothing in a row of characters sets it apart. -/
def Solid (cs : List Char) : Prop := ∀ c ∈ cs, separates c = false

instance (cs : List Char) : Decidable (Solid cs) := List.decidableBAll (separates · = false) cs

theorem Solid.not_mem {cs : List Char} (h : Solid cs) (hc : separates c = true) : c ∉ cs := by
  intro hmem
  rw [h c hmem] at hc
  cases hc

theorem Solid.append {s t : String} (hs : Solid s.toList) (ht : Solid t.toList) :
    Solid (s ++ t).toList := by
  intro c hc
  rw [String.toList_append, List.mem_append] at hc
  exact hc.elim (hs c) (ht c)

theorem solid_hex (width n : Nat) : Solid (Hex.text width n).toList := by
  have key : Solid Hex.alphabet := by decide
  exact fun c hc => key c (Hex.mem_alphabet_of_mem_text hc)

/-! ### Lines -/

/-- A text stays on one line. -/
def OneLine (text : String) : Prop := '\n' ∉ text.toList

instance (text : String) : Decidable (OneLine text) :=
  inferInstanceAs (Decidable ('\n' ∉ text.toList))

theorem Solid.oneLine {s : String} (h : Solid s.toList) : OneLine s := h.not_mem rfl

theorem oneLine_hex (width n : Nat) : OneLine (Hex.text width n) := (solid_hex width n).oneLine

theorem OneLine.append {s t : String} (hs : OneLine s) (ht : OneLine t) : OneLine (s ++ t) := by
  rw [OneLine, String.toList_append, List.mem_append, not_or]
  exact ⟨hs, ht⟩

/-- The lines of a text, without their line feeds. -/
def lines (text : String) : List (List Char) := (text.toList.splitOn '\n').dropLast

theorem splitOn_join (bodies : List String) (h : ∀ b ∈ bodies, OneLine b) :
    (String.join (bodies.map (· ++ "\n"))).toList.splitOn '\n' =
      bodies.map String.toList ++ [[]] := by
  induction bodies with
  | nil => rfl
  | cons b bodies ih =>
    -- a body ends at its own line feed, since it has none inside
    obtain ⟨hb, hbodies⟩ := List.forall_mem_cons.mp h
    rw [List.map_cons, String.join_cons, String.toList_append, String.toList_append,
      List.append_assoc]
    exact (List.splitOn_append_cons_self_of_not_mem hb _).trans (congrArg _ (ih hbodies))

/-- A text made of lines has those lines. -/
theorem lines_join {bodies : List String} (h : ∀ b ∈ bodies, OneLine b) :
    lines (String.join (bodies.map (· ++ "\n"))) = bodies.map String.toList := by
  rw [lines, splitOn_join bodies h, List.dropLast_concat]

/-! ### Columns -/

/-- A column of a line, counted from zero: two blanks stand between columns. -/
def column (k : Nat) (line : List Char) : List Char := (line.splitOn ' ').getD (2 * k) []

/-- The second column of a line that has a third. -/
theorem column_one {first second : List Char} (hfirst : ' ' ∉ first) (hsecond : ' ' ∉ second)
    (rest : List Char) : column 1 (first ++ ' ' :: ' ' :: (second ++ ' ' :: rest)) = second := by
  have hempty : ' ' ∉ ([] : List Char) := List.not_mem_nil
  have hgap : (' ' :: (second ++ ' ' :: rest)).splitOn ' ' = [] :: second :: rest.splitOn ' ' :=
    (List.splitOn_append_cons_self_of_not_mem hempty _).trans
      (congrArg _ (List.splitOn_append_cons_self_of_not_mem hsecond rest))
  rw [column, List.splitOn_append_cons_self_of_not_mem hfirst, hgap]
  rfl

/-! ### Parts -/

/-- What separators set apart in a text; several in a row set apart what one does. -/
def parts (cs : List Char) : List (List Char) := (cs.splitOnP separates).filter (· ≠ [])

/-- A part that nothing sets apart. -/
theorem parts_of_solid {cs : List Char} (h : Solid cs) (hne : cs ≠ []) : parts cs = [cs] := by
  rw [parts, List.splitOnP_eq_singleton h]
  exact List.filter_cons_of_pos (decide_eq_true hne)

/-- A separator sets apart what stands before and behind it. -/
theorem parts_append_cons (hc : separates c = true) (before behind : List Char) :
    parts (before ++ c :: behind) = parts before ++ parts behind := by
  rw [parts, List.splitOnP_append_cons _ _ hc, List.filter_append]
  rfl

theorem parts_cons (hc : separates c = true) (cs : List Char) : parts (c :: cs) = parts cs :=
  parts_append_cons hc [] cs

theorem parts_replicate_append (hc : separates c = true) (k : Nat) (cs : List Char) :
    parts (List.replicate k c ++ cs) = parts cs := by
  induction k with
  | zero => rfl
  | succ k ih => rw [List.replicate_succ, List.cons_append, parts_cons hc, ih]

/-- Texts with commas and blanks between them are parts of what they are put together to. -/
theorem parts_intercalate {ts : List (List Char)} (h : ∀ t ∈ ts, Solid t ∧ t ≠ []) :
    parts ([',', ' '].intercalate ts) = ts := by
  match ts with
  | [] => rfl
  | [t] =>
    obtain ⟨hsolid, hne⟩ := h t List.mem_cons_self
    rw [List.intercalate_singleton, parts_of_solid hsolid hne]
  | t :: t' :: rest =>
    obtain ⟨⟨hsolid, hne⟩, hrest⟩ := List.forall_mem_cons.mp h
    rw [List.intercalate_cons_cons, List.append_assoc, List.cons_append, List.cons_append,
      List.nil_append, parts_append_cons rfl, parts_cons rfl, parts_intercalate hrest,
      parts_of_solid hsolid hne]
    rfl

/-- What stands neither in texts nor between them is not in what they are put together to. -/
theorem not_mem_intercalate {between : List Char} {ts : List (List Char)} (hbetween : c ∉ between)
    (h : ∀ t ∈ ts, c ∉ t) : c ∉ between.intercalate ts := by
  match ts with
  | [] => exact List.not_mem_nil
  | [t] =>
    rw [List.intercalate_singleton]
    exact h t List.mem_cons_self
  | t :: t' :: rest =>
    obtain ⟨ht, hrest⟩ := List.forall_mem_cons.mp h
    rw [List.intercalate_cons_cons, List.mem_append, List.mem_append, not_or, not_or]
    exact ⟨⟨ht, hbetween⟩, not_mem_intercalate hbetween hrest⟩

end Text

end Chip8
