import LineBasic.Proofs.Session.Reachability

/-!
# Statements that fail

A statement that fails leaves the program and the run as they were. It leaves the
variables and the loops as they were too, with two exceptions. A loop that finds the
stack full has stored the first value of its variable by then, and closing a loop has
given up the loops inside it before its variable fails to advance.

Main statement: `failure_keeps_data_iff` says that there are no other exceptions.
`not_failure_keeps_data` shows that the second one comes about.
-/

namespace LineBasic

namespace Machine

variable {m : Machine} {s : Statement}

/-- The variables and the loops of two machines are the same. -/
def SameData (m m' : Machine) : Prop :=
  m'.loops = m.loops ∧ ∀ name : Text, m'.vars.entries[name]? = m.vars.entries[name]?

/-- The statement opens one loop too many: it belongs to a variable that has no loop,
and its first value is not yet the value of the variable. -/
def StoresInVain (m : Machine) (s : Statement) : Prop :=
  ∃ name start limit step a, m.chosen s = .ok (some (.loop name start limit step)) ∧
    m.run ≠ none ∧ m.integer start = .ok a ∧ (∃ b, m.integer limit = .ok b) ∧
    (∃ c, m.stepValue step = .ok c) ∧ m.vars.HasRoom name ∧
    m.loops.size = Stack.capacity ∧ (∀ l ∈ m.loops.entries, l.name ≠ name) ∧
    m.vars.entries[name]? ≠ some (.integer a)

/-- The statement closes a loop that has other loops inside it. -/
def ClosesAround (m : Machine) (s : Statement) : Prop :=
  ∃ name loop below, m.chosen s = .ok (some (.next name)) ∧ m.run ≠ none ∧
    m.target? name = some (loop, below) ∧ m.loops.entries ≠ loop :: below.entries

theorem SameData.refl (m : Machine) : SameData m m := ⟨rfl, fun _ => rfl⟩

theorem perform_of_chosen {leaf : Statement} (choice : m.chosen s = .ok (some leaf)) :
    m.perform s = m.perform leaf := by
  rw [perform_eq_chosen, choice]

/-- A variable with no loop gives up no loops when it opens one. -/
theorem outside_of_forall_ne {name : Text} {loops : Stack Loop}
    (new : ∀ l ∈ loops.entries, l.name ≠ name) : Loop.outside name loops = loops := by
  have missing : loops.newest? (·.name == name) = none :=
    Stack.newest?_eq_none_iff.mpr fun l hl => by simpa using new l hl
  rw [Loop.outside, missing]

/-- If as many loops are outside as a stack can hold, then no loop was given up. -/
theorem outside_of_full {name : Text} {loops : Stack Loop} (depth : loops.size ≤ Stack.capacity)
    (full : Stack.capacity ≤ (Loop.outside name loops).size) :
    Loop.outside name loops = loops := by
  have suffix := Loop.outside_suffix name loops
  have entries := suffix.eq_of_length
    (Nat.le_antisymm suffix.length_le (Nat.le_trans depth full))
  exact congrArg Stack.mk entries

theorem StoresInVain.not_sameData (h : m.StoresInVain s) : ¬ SameData m (m.perform s).1 := by
  obtain ⟨name, start, limit, step, a, choice, running, first, ⟨b, last⟩, ⟨c, stride⟩, room, full,
    new, differs⟩ := h
  obtain ⟨r, running⟩ := Option.ne_none_iff_exists'.mp running
  have values := prepared_eq_ok_iff.mpr ⟨a, first, last, stride, room, rfl⟩
  have spent : ¬ (Loop.outside name m.loops).size < Stack.capacity := by
    rw [outside_of_forall_ne new, full]
    exact Nat.lt_irrefl _
  rintro ⟨-, same⟩
  apply differs
  rw [← same name, perform_of_chosen choice, perform, openLoop_of_running running, values]
  simp only [if_neg spent, Variables.insert, Std.TreeMap.getElem?_insert_self]

theorem ClosesAround.not_sameData (h : m.ClosesAround s) {e : Error}
    (failed : (m.perform s).2 = .error e) : ¬ SameData m (m.perform s).1 := by
  obtain ⟨name, loop, below, choice, running, target, inside⟩ := h
  obtain ⟨r, running⟩ := Option.ne_none_iff_exists'.mp running
  rw [perform_of_chosen choice, perform, closeLoop_of_target running target] at failed ⊢
  cases values : m.advanced loop with
  | error e =>
      rintro ⟨same, -⟩
      exact inside (congrArg Stack.entries same).symm
  | ok result =>
      obtain ⟨vars, again⟩ := result
      cases again <;> simp [values] at failed

/-- Apart from the two exceptions a failing statement changes no data. -/
theorem Performs.sameData {m' : Machine} {e : Error} (p : Performs m s m' (.error e))
    (depth : m.loops.size ≤ Stack.capacity) (distinct : (m.loops.entries.map Loop.name).Nodup)
    (stores : ¬ m.StoresInVain s) (closes : ¬ m.ClosesAround s) : SameData m m' := by
  generalize ho : (Except.error e : Outcome) = o at p
  cases p with
  | undecided | commanded | unassigned | unopened | unmatched => exact .refl m
  | skipped | stopped | erased | started | assigned | opened | continued | finished => cases ho
  | @refused name start limit step r a b c choice running first last stride room full =>
      have outside := outside_of_full depth full
      refine ⟨outside, ?_⟩
      have held : m.vars.entries[name]? = some (.integer a) := by
        by_contra differs
        refine stores ⟨name, start, limit, step, a, choice, by simp [running], first, ⟨b, last⟩,
          ⟨c, stride⟩, room, ?_, ?_, differs⟩
        · exact Nat.le_antisymm depth (outside ▸ full)
        · intro l hl
          rw [← outside] at hl
          exact Loop.name_ne_of_mem_outside distinct hl
      intro other
      simp only [Variables.insert, Std.TreeMap.getElem?_insert, Std.LawfulEqOrd.compare_eq_iff_eq]
      split
      · next same => rw [← same, held]
      · rfl
  | @stuck name r loop below e' choice running target raised =>
      have entries : m.loops.entries = loop :: below.entries := by
        by_contra inside
        exact closes ⟨name, loop, below, choice, by simp [running], target, inside⟩
      exact ⟨congrArg Stack.mk entries.symm, fun _ => rfl⟩

/-- A failing statement changes neither the program nor the run. -/
theorem Performs.sameProgram {m' : Machine} {e : Error} (p : Performs m s m' (.error e)) :
    m'.program = m.program ∧ m'.run = m.run := by
  generalize ho : (Except.error e : Outcome) = o at p
  cases p with
  | undecided | commanded | unassigned | unopened | unmatched | refused | stuck => exact ⟨rfl, rfl⟩
  | skipped | stopped | erased | started | assigned | opened | continued | finished => cases ho

end Machine

namespace Session

open Machine

/-- A statement that fails in a reachable session, whether it is direct or has just been
reached by a run, changes neither the program nor the run, and it changes the data in
exactly two cases. -/
theorem failure_keeps_data_iff {s : Session} (h : Reachable s) (run : Option Run)
    (statement : Statement) {e : Error}
    (failed : ({ s.machine with run }.perform statement).2 = .error e) :
    let m := { s.machine with run }
    let m' := (m.perform statement).1
    m'.program = m.program ∧ m'.run = m.run ∧
      (SameData m m' ↔ ¬ (m.StoresInVain statement ∨ m.ClosesAround statement)) := by
  intro m m'
  have performs : Performs m statement m' (.error e) := failed ▸ m.performs statement
  have loops := h.sound.machine.loops
  refine ⟨performs.sameProgram.1, performs.sameProgram.2, ?_, ?_⟩
  · rintro same (stores | closes)
    · exact stores.not_sameData same
    · exact closes.not_sameData failed same
  · intro exceptions
    rw [not_or] at exceptions
    exact performs.sameData loops.depth loops.distinct exceptions.1 exceptions.2

/-- Two loops, one inside the other, are open when the variable of the outer one has
been given a text. Line 40 comes next. -/
def textInLoop : Session :=
  ((initial.enterAll ["10 FOR I=1 TO 3".toList, "20 FOR J=1 TO 3".toList, "30 I=\"A\"".toList,
    "40 NEXT I".toList, "RUN".toList]).execute 3).session

theorem reachable_textInLoop : Reachable textInLoop := (Reachable.initial.enterAll _).execute 3

private theorem target?_textInLoop :
    textInLoop.machine.advance.target? (some ['I']) =
      some ({ name := ['I'], limit := 3, step := 1, resume := 1 }, .empty) := by
  decide +kernel

/-- Closing the outer loop fails, since its variable does not hold an integer. -/
private theorem textInLoop_next :
    (textInLoop.machine.advance.perform (.next (some ['I']))).2 =
      .error { kind := .typeMismatch } := by
  have running : textInLoop.machine.advance.run = some ⟨#[10, 20, 30, 40], 4⟩ := by
    decide +kernel
  have fetched : textInLoop.machine.advance.vars.fetch ['I'] = .text ['A'] := by decide +kernel
  rw [perform, closeLoop_of_target running target?_textInLoop, advanced, following, fetched]
  rfl

private theorem textInLoop_closesAround :
    textInLoop.machine.advance.ClosesAround (.next (some ['I'])) :=
  ⟨_, _, _, rfl, by decide +kernel, target?_textInLoop, by decide +kernel⟩

theorem failure_keeps_data_iff_textInLoop :
    let m := textInLoop.machine.advance
    Reachable textInLoop ∧
      (m.perform (.next (some ['I']))).2 = .error { kind := .typeMismatch } ∧
      m.ClosesAround (.next (some ['I'])) ∧ ¬ SameData m (m.perform (.next (some ['I']))).1 := by
  have condition := (failure_keeps_data_iff reachable_textInLoop _ _ textInLoop_next).2.2
  exact ⟨reachable_textInLoop, textInLoop_next, textInLoop_closesAround,
    fun same => condition.mp same (.inr textInLoop_closesAround)⟩

/-- It is not so that a failing statement always keeps the loops, not even one that
stands in a program that was entered. -/
theorem not_failure_keeps_data :
    ¬ ∀ s : Session, Reachable s → ∀ (line : Option Nat) (t : Text) (statement : Statement),
      Statement.parse line t = .ok statement →
        ∀ e, (s.machine.advance.perform statement).2 = .error e →
          SameData s.machine.advance (s.machine.advance.perform statement).1 := by
  intro keeps
  have read : Statement.parse (some 40) "NEXT I".toList = .ok (.next (some ['I'])) := by cbv
  have same := keeps textInLoop reachable_textInLoop _ _ _ read _ textInLoop_next
  exact textInLoop_closesAround.not_sameData textInLoop_next same

end Session

end LineBasic
