import LineBasic.Proofs.Machine.Counting
import LineBasic.Proofs.Machine.Editing
import LineBasic.Proofs.Session.Reachability
import Mathlib.Data.List.Sort

/-!
# The last edit of a number

What a program holds under a number depends on nothing but the last line that was accepted under
this number: it holds that line, or nothing if the line has no statement. Lines that are rejected or
have no number do not come into it. Nor does the order in which different numbers were entered,
since a program is determined by what it holds under each of them (`Program.ext_of_find?`).

Main statement: `Session.program_holds_last_edits`.
-/

namespace LineBasic

namespace Line

variable {t : Text} {l : ProgramLine}

/-- The number and the statement of a typed line that is accepted under a number. The statement is
empty if the line removes what is stored there. -/
def edit? (t : Text) : Option ProgramLine :=
  if maxBytes < t.byteLength then none
  else
    match read t with
    | .ok ⟨some n, text⟩ => some ⟨n, text⟩
    | _ => none

/-- Whether a typed line is accepted under the number. -/
def edits (n : Nat) (t : Text) : Bool := (edit? t).any (·.number == n)

theorem edit?_eq_some_iff :
    edit? t = some l ↔ t.byteLength ≤ maxBytes ∧ read t = .ok l.toLine := by
  rw [edit?]
  by_cases long : maxBytes < t.byteLength
  · simp only [if_pos long, reduceCtorEq, Nat.not_le_of_lt long, false_and]
  · rw [if_neg long]
    obtain ⟨n, text⟩ := l
    rcases read t with e | ⟨_ | k, statement⟩ <;>
      simp [Nat.le_of_not_lt long, ProgramLine.toLine]

end Line

namespace Program

variable {p q : Program}

/-- An edit leaves its line under its number, unless the statement is empty. -/
theorem find?_edit (h : p.Ascending) (l : ProgramLine) :
    (p.edit l.number l.text).find? l.number = (some l).filter (!·.text.isEmpty) := by
  rw [edit]
  split
  · next none => rw [find?_remove, if_pos rfl, Option.filter_some, none, if_neg (by simp)]
  · next filled =>
    have kept : (!l.text.isEmpty) = true := by simpa using filled
    rw [find?_insert p _ _ h, if_pos rfl, Option.filter_some, if_pos kept]

theorem mem_lines_iff (h : p.Ascending) {l : ProgramLine} :
    l ∈ p.lines ↔ p.find? l.number = some l :=
  ⟨find?_of_mem h, List.mem_of_find?_eq_some⟩

/-- A program is determined by what it holds under each number. -/
theorem ext_of_find? (hp : p.Ascending) (hq : q.Ascending) (same : ∀ n, p.find? n = q.find? n) :
    p = q := by
  let before (a b : ProgramLine) : Prop := a.number < b.number
  have : Std.Irrefl before := ⟨fun _ => Nat.lt_irrefl _⟩
  have : Std.Antisymm before := ⟨fun _ _ h h' => absurd h' (Nat.lt_asymm h)⟩
  have members (l : ProgramLine) : l ∈ p.lines ↔ l ∈ q.lines := by
    rw [mem_lines_iff hp, mem_lines_iff hq, same]
  have ordered : p.lines.Pairwise before := List.pairwise_map.mp hp
  have ordered' : q.lines.Pairwise before := List.pairwise_map.mp hq
  exact congrArg Program.mk (ordered.eq_of_mem_iff ordered' members)

end Program

namespace Session

variable {t : Text} {l : ProgramLine}

/-- The last of some typed lines that was accepted under a number. -/
def lastEdit? (n : Nat) (lines : List Text) : Option ProgramLine :=
  ((lines.filterMap Line.edit?).filter (·.number == n)).getLast?

/-- The newest line decides, if it was accepted under the number at all. -/
theorem lastEdit?_concat (n : Nat) (lines : List Text) (t : Text) :
    lastEdit? n (lines ++ [t]) =
      ((Line.edit? t).filter (·.number == n)).or (lastEdit? n lines) := by
  have single : ((([t] : List Text).filterMap Line.edit?).filter (·.number == n)).getLast? =
      (Line.edit? t).filter (·.number == n) := by
    rw [List.filter_filterMap, List.filterMap_cons]
    cases (Line.edit? t).filter (·.number == n) <;> rfl
  rw [lastEdit?, List.filterMap_append, List.filter_append, List.getLast?_append, single,
    lastEdit?]

/-- Other lines than those that were accepted under the number do not matter. -/
theorem lastEdit?_filter (n : Nat) (lines : List Text) :
    lastEdit? n (lines.filter (Line.edits n)) = lastEdit? n lines := by
  have passes (t : Text) :
      (if Line.edits n t then Line.edit? t else none).filter (·.number == n) =
        (Line.edit? t).filter (·.number == n) := by
    rw [Line.edits]
    cases Line.edit? t with
    | none => rfl
    | some l => cases number : l.number == n <;> simp [Option.filter_some, number]
  simp only [lastEdit?, List.filter_filterMap, List.filterMap_filter, passes]

theorem enterAll_concat (s : Session) (lines : List Text) (t : Text) :
    s.enterAll (lines ++ [t]) = ((s.enterAll lines).enter t).1 := by
  rw [enterAll, enterAll, List.foldl_append]
  rfl

/-- A line is accepted under its number whatever the session is. -/
theorem edit?_eq_some_iff_enter (s : Session) :
    Line.edit? t = some l ↔ (s.enter t).2 = true ∧ Line.read t = .ok l.toLine := by
  rw [Line.edit?_eq_some_iff, enter]
  by_cases long : Line.maxBytes < t.byteLength
  · simp [if_pos long, Nat.not_le_of_lt long]
  · rw [if_neg long]
    refine and_congr_left fun read => ?_
    rw [read]
    exact iff_of_true (Nat.le_of_not_lt long) rfl

theorem program_enter_of_edit? (s : Session) (h : Line.edit? t = some l) :
    (s.enter t).1.machine.program = s.machine.program.edit l.number l.text := by
  obtain ⟨within, read⟩ := Line.edit?_eq_some_iff.mp h
  rw [enter, if_neg (Nat.not_lt_of_le within), read]
  simp only [accept, ProgramLine.toLine, Line.isEmpty, Program.edit, List.isEmpty_iff]

/-- A line that is not accepted under any number leaves the program as it is. -/
theorem program_enter_of_edit?_eq_none (s : Session) (h : Line.edit? t = none) :
    (s.enter t).1.machine.program = s.machine.program := by
  rw [enter]
  split
  · rfl
  · next within =>
    split
    · rfl
    · next line read =>
      obtain ⟨_ | n, text⟩ := line
      · simp only [accept]
        split <;> rfl
      · have entered := Line.edit?_eq_some_iff (l := ⟨n, text⟩).mpr ⟨Nat.le_of_not_lt within, read⟩
        rw [h] at entered
        cases entered

/-- What is stored under a number is what was entered under it, or else what it was. -/
theorem find?_enter {s : Session} (h : s.machine.program.Ascending) (n : Nat) (t : Text) :
    (s.enter t).1.machine.program.find? n =
      match (Line.edit? t).filter (·.number == n) with
      | some l => (some l).filter (!·.text.isEmpty)
      | none => s.machine.program.find? n := by
  cases entered : Line.edit? t with
  | none => rw [program_enter_of_edit?_eq_none s entered, Option.filter_none]
  | some l =>
      rw [program_enter_of_edit? s entered]
      by_cases same : l.number = n
      · subst same
        simp only [Option.filter_some, beq_self_eq_true, if_true]
        exact Program.find?_edit h l
      · rw [Option.filter_some, if_neg (by simpa using same)]
        exact Program.find?_edit_of_ne (Ne.symm same) l.text

theorem ascending_enterAll (lines : List Text) :
    (initial.enterAll lines).machine.program.Ascending :=
  (Reachable.initial.enterAll lines).sound.machine.program.ascending

/-- Under each number a program holds the last line that was entered there, unless this one removed
it. -/
theorem find?_enterAll (n : Nat) (lines : List Text) :
    (initial.enterAll lines).machine.program.find? n =
      (lastEdit? n lines).filter (!·.text.isEmpty) := by
  induction lines using List.reverseRecOn with
  | nil => rfl
  | append_singleton lines t ih =>
      rw [enterAll_concat, find?_enter (ascending_enterAll lines), lastEdit?_concat]
      cases (Line.edit? t).filter (·.number == n) with
      | none => exact ih
      | some l => rfl

/-- `LIST` writes the lines as they are stored, and a notice if there are none. -/
theorem execute_list (m : Machine) :
    m.execute ⟨none, "LIST".toList⟩ = (m, Display.write <|
      if m.program.lines = [] then "No program lines\n".toList
      else m.program.lines.flatMap fun l =>
        Decimal.print l.number ++ ' ' :: (l.text ++ ['\n'])) := by
  refine Machine.execute_of_perform_ok (s := .list) (by decide +kernel) ?_
  have written : (m.program.listing.flatMap fun line => Display.write (line ++ ['\n'])) =
      Display.write (m.program.lines.flatMap fun l =>
        Decimal.print l.number ++ ' ' :: (l.text ++ ['\n'])) := by
    simp only [Program.listing, List.flatMap_map, Display.write, List.map_flatMap,
      ProgramLine.toLine, Line.display, List.append_assoc, List.cons_append]
  have performed : m.perform .list = (m, m.commands .list) := rfl
  rw [performed, Machine.commands, Program.isEmpty]
  by_cases none : m.program.lines = []
  · rw [if_pos none, if_pos (List.isEmpty_iff.mpr none)]
  · rw [if_neg none, if_neg (mt List.isEmpty_iff.mp none), written]

/-- Whatever is entered into a new session, under each number the program holds the line that was
accepted last under this number, unless its statement is empty. So other lines that keep, for each
number, those that were accepted under it in their order, make the same program. What is accepted
depends on the line alone, and a line that is not accepted under a number leaves any program as it
is. `LIST` writes the program in the order of its numbers, which are strictly ascending. -/
theorem program_holds_last_edits (lines : List Text) :
    let m := (initial.enterAll lines).machine
    (∀ (s : Session) t l,
      Line.edit? t = some l ↔ (s.enter t).2 = true ∧ Line.read t = .ok l.toLine) ∧
    (∀ (s : Session) t,
      Line.edit? t = none → (s.enter t).1.machine.program = s.machine.program) ∧
    m.program.Ascending ∧
    (∀ n text, ⟨n, text⟩ ∈ m.program.lines ↔ lastEdit? n lines = some ⟨n, text⟩ ∧ text ≠ []) ∧
    (∀ lines', (∀ n, lines'.filter (Line.edits n) = lines.filter (Line.edits n)) →
      (initial.enterAll lines').machine.program = m.program) ∧
    m.execute ⟨none, "LIST".toList⟩ = (m, List.map .character <|
      if m.program.lines = [] then "No program lines\n".toList
      else m.program.lines.flatMap fun l =>
        Decimal.print l.number ++ ' ' :: (l.text ++ ['\n'])) := by
  intro m
  have ascending : m.program.Ascending := ascending_enterAll lines
  have holds (n : Nat) : m.program.find? n = (lastEdit? n lines).filter (!·.text.isEmpty) :=
    find?_enterAll n lines
  refine ⟨fun s t l => edit?_eq_some_iff_enter s, fun s t => program_enter_of_edit?_eq_none s,
    ascending, fun n text => ?_, fun lines' same => ?_, execute_list m⟩
  · rw [Program.mem_lines_iff ascending, holds, Option.filter_eq_some_iff]
    simp
  · refine Program.ext_of_find? (ascending_enterAll lines') ascending fun n => ?_
    rw [holds, find?_enterAll, ← lastEdit?_filter n lines', same, lastEdit?_filter]

/-- Line 10 is stored twice, line 20 is removed again, one line is refused and one is direct. The
same program comes about when line 20 is entered first, and stays when one more direct line is
queued. -/
theorem program_holds_last_edits_reordered :
    let lines := ["10 A=1", "0020 B=2", "70000 C", "020\r\n", "RUN", "10A=2 "].map String.toList
    let lines' := ["0020 B=2", "10 A=1", "10A=2 ", "020\r\n"].map String.toList
    let m := (initial.enterAll lines).machine
    ⟨10, "A=2".toList⟩ ∈ m.program.lines ∧ (∀ text, ⟨20, text⟩ ∉ m.program.lines) ∧
      ((initial.enterAll lines).enter "NEW".toList).1.machine.program = m.program ∧
      (initial.enterAll lines').machine.program = m.program ∧
      (m.execute ⟨none, "LIST".toList⟩).2 = "10 A=2\n".toList.map .character := by
  intro lines lines' m
  obtain ⟨-, unedited, -, holds, reordered, listed⟩ := program_holds_last_edits lines
  refine ⟨(holds 10 _).mpr (by decide +kernel), fun text stored => ?_,
    unedited _ _ (by decide +kernel), reordered lines' fun n => ?_, ?_⟩
  · have last : lastEdit? 20 lines = some ⟨20, []⟩ := by decide +kernel
    obtain ⟨entered, filled⟩ := (holds 20 text).mp stored
    rw [last] at entered
    cases entered
    exact filled rfl
  · by_cases ten : n = 10
    · subst ten
      decide +kernel
    by_cases twenty : n = 20
    · subst twenty
      decide +kernel
    have numbers : ∀ t ∈ lines' ++ lines, ∀ l ∈ Line.edit? t, l.number = 10 ∨ l.number = 20 := by
      decide +kernel
    have others : ∀ t ∈ lines' ++ lines, ¬ Line.edits n t = true := by
      intro t ht enters
      obtain ⟨l, entered, number⟩ := (Option.any_eq_true _ _).mp enters
      rw [beq_iff_eq] at number
      rcases numbers t ht l entered with h | h
      · exact ten (number.symm.trans h)
      · exact twenty (number.symm.trans h)
    rw [List.filter_eq_nil_iff.mpr fun t ht => others t (List.mem_append_left _ ht),
      List.filter_eq_nil_iff.mpr fun t ht => others t (List.mem_append_right _ ht)]
  · rw [listed]
    decide +kernel

end Session

end LineBasic
