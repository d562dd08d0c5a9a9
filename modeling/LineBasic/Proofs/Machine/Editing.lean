import LineBasic.Proofs.Machine.Soundness
import LineBasic.Proofs.Machine.Containment
import LineBasic.Proofs.Session.Intake

/-!
# Machines whose program is edited

A run visits the lines that the program had when it began, and reads their texts when it
comes to them. Of the program that is stored by then it sees nothing else, unless a
statement lists or starts it. So a step does the same over any program that has the same
texts in the lines of the run (`step_withProgram`).

`Follows m₀ m` says that `m` is still in the run of `m₀`, or that no program runs any
more. It is kept by each step and by each edit outside of the lines of the run, and it
knows of every open loop that it goes back behind a line which opens it.
-/

namespace LineBasic

theorem Program.find?_insert_of_ne {p : Program} {l : ProgramLine} {n : Nat}
    (other : n ≠ l.number) : (p.insert l).find? n = p.find? n := by
  obtain ⟨lines⟩ := p
  simp only [find?, insert]
  induction lines with
  | nil => simp [insertInto, other.symm]
  | cons x lines ih =>
      rw [insertInto]
      split
      · rw [List.find?_cons_of_neg (by simpa using other.symm)]
      · split
        · next same =>
          rw [List.find?_cons_of_neg (by simpa using other.symm),
            List.find?_cons_of_neg (by simpa [← same] using other.symm)]
        · rw [List.find?_cons, List.find?_cons, ih]

/-- An edit changes one line only. -/
theorem Program.find?_edit_of_ne {p : Program} {n k : Nat} (other : k ≠ n) (statement : Text) :
    (p.edit n statement).find? k = p.find? k := by
  rw [edit]
  split
  · rw [find?_remove, if_neg other.symm]
  · exact find?_insert_of_ne other

/-- The statement neither lists nor starts the program, whatever branch is taken. -/
def Statement.IgnoresProgram (s : Statement) : Prop :=
  ∀ leaf ∈ s.leaves, leaf ≠ .list ∧ leaf ≠ .run

instance (s : Statement) : Decidable s.IgnoresProgram :=
  inferInstanceAs (Decidable (∀ leaf ∈ s.leaves, leaf ≠ .list ∧ leaf ≠ .run))

namespace Machine

variable {m m' m₀ : Machine} {p : Program} {s : Statement}

/-- The machine with another program under its run. -/
def withProgram (m : Machine) (p : Program) : Machine := { m with program := p }

@[simp] theorem run_withProgram (m : Machine) (p : Program) : (m.withProgram p).run = m.run := rfl

@[simp] theorem loops_withProgram (m : Machine) (p : Program) :
    (m.withProgram p).loops = m.loops := rfl

@[simp] theorem snapshot_withProgram (m : Machine) (p : Program) :
    (m.withProgram p).snapshot = m.snapshot := rfl

@[simp] theorem counter_withProgram (m : Machine) (p : Program) :
    (m.withProgram p).counter = m.counter := rfl

/-- No line of the run looks at the program as a whole. A line that cannot be read does
not. -/
def IgnoresProgram (m : Machine) : Prop :=
  ∀ n ∈ m.snapshot, ∀ line ∈ m.program.find? n,
    ∀ s ∈ line.toLine.statement.toOption, s.IgnoresProgram

instance (m : Machine) : Decidable m.IgnoresProgram :=
  inferInstanceAs (Decidable (∀ n ∈ m.snapshot, ∀ line ∈ m.program.find? n,
    ∀ s ∈ line.toLine.statement.toOption, s.IgnoresProgram))

theorem IgnoresProgram.statement (h : m.IgnoresProgram) {n : Nat} {line : ProgramLine}
    (mem : n ∈ m.snapshot) (stored : m.program.find? n = some line)
    (read : line.toLine.statement = .ok s) : s.IgnoresProgram :=
  h n mem line stored s (by rw [read]; rfl)

theorem chosen_withProgram (m : Machine) (p : Program) (s : Statement) :
    (m.withProgram p).chosen s = m.chosen s := by
  have holds (c : Condition) : (m.withProgram p).holds c = m.holds c := by cases c <;> rfl
  induction s with
  | branch condition yes ih => rw [chosen, chosen, holds, ih]
  | branchElse condition yes no ihyes ihno => rw [chosen, chosen, holds, ihyes, ihno]
  | _ => rfl

theorem openLoop_withProgram (m : Machine) (p : Program) (name : Text) (start limit : Expression)
    (step : Option Expression) :
    (m.withProgram p).openLoop name start limit step =
      ((m.openLoop name start limit step).1.withProgram p,
        (m.openLoop name start limit step).2) := by
  cases running : m.run with
  | none => simp only [openLoop, run_withProgram, running]
  | some r =>
      have values : (m.withProgram p).prepared name start limit step =
          m.prepared name start limit step := by
        cases step <;> rfl
      have running' : (m.withProgram p).run = some r := running
      rw [openLoop_of_running running, openLoop_of_running running', values, loops_withProgram]
      cases m.prepared name start limit step with
      | error e => rfl
      | ok prepared =>
          dsimp only
          split <;> rfl

theorem closeLoop_withProgram (m : Machine) (p : Program) (name : Option Text) :
    (m.withProgram p).closeLoop name =
      ((m.closeLoop name).1.withProgram p, (m.closeLoop name).2) := by
  cases running : m.run with
  | none => simp only [closeLoop, run_withProgram, running]
  | some r =>
      have running' : (m.withProgram p).run = some r := running
      cases target : m.target? name with
      | none =>
          rw [target?] at target
          simp only [closeLoop, run_withProgram, loops_withProgram, running, target]
      | some found =>
          obtain ⟨loop, below⟩ := found
          have target' : (m.withProgram p).target? name = some (loop, below) := target
          have values : (m.withProgram p).advanced loop = m.advanced loop := rfl
          rw [closeLoop_of_target running target, closeLoop_of_target running' target', values]
          cases m.advanced loop with
          | error e => rfl
          | ok advanced =>
              obtain ⟨vars, again⟩ := advanced
              cases again <;> rfl

/-- A statement that ignores the program does the same over any other. -/
theorem perform_withProgram (ignores : s.IgnoresProgram) (m : Machine) (p : Program) :
    ∃ p', (m.withProgram p).perform s = ((m.perform s).1.withProgram p', (m.perform s).2) := by
  rw [perform_eq_chosen, perform_eq_chosen m, chosen_withProgram]
  cases choice : m.chosen s with
  | error e => exact ⟨p, rfl⟩
  | ok chosen =>
      cases chosen with
      | none => exact ⟨p, rfl⟩
      | some leaf =>
          have mem := mem_leaves_of_chosen choice
          cases leaf with
          | branch condition yes => cases Statement.isConditional_of_mem_leaves mem
          | branchElse condition yes no => cases Statement.isConditional_of_mem_leaves mem
          | list => exact absurd rfl (ignores _ mem).1
          | run => exact absurd rfl (ignores _ mem).2
          | erase => exact ⟨.empty, rfl⟩
          | loop name start limit step => exact ⟨p, openLoop_withProgram m p name start limit step⟩
          | next name => exact ⟨p, closeLoop_withProgram m p name⟩
          | assign name value =>
              refine ⟨p, ?_⟩
              dsimp only [perform, withProgram]
              cases value.eval m.vars >>= m.vars.store name <;> rfl
          | _ => exact ⟨p, rfl⟩

theorem execute_withProgram {l : Line} (ignores : ∀ s, l.statement = .ok s → s.IgnoresProgram)
    (m : Machine) (p : Program) :
    ∃ p', (m.withProgram p).execute l = ((m.execute l).1.withProgram p', (m.execute l).2) := by
  rw [execute, execute]
  cases read : l.statement with
  | error e => exact ⟨p, rfl⟩
  | ok s =>
      obtain ⟨p', performed⟩ := perform_withProgram (ignores s read) m p
      refine ⟨p', ?_⟩
      simp only [performed]
      rcases m.perform s with ⟨after, outcome⟩
      cases outcome <;> rfl

/-- The line that comes next stands at the place of the run, and its text is the stored one. -/
theorem place_of_upcoming? {line : ProgramLine} (h : m.upcoming? = some line) :
    m.snapshot[m.counter]? = some line.number ∧ m.program.find? line.number = some line := by
  obtain ⟨r, running, place⟩ := exists_run_of_upcoming? h
  exact ⟨by simpa [snapshot, counter, running] using place,
    by simpa [upcoming?, running, place] using h⟩

theorem snapshot_ne_empty {line : ProgramLine} (h : m.upcoming? = some line) :
    m.snapshot ≠ #[] := by
  intro empty
  have place := (place_of_upcoming? h).1
  simp [empty] at place

/-- Over the same texts in the lines of a run, the same line comes next. -/
theorem upcoming?_withProgram (same : ∀ n ∈ m.snapshot, p.find? n = m.program.find? n) :
    (m.withProgram p).upcoming? = m.upcoming? := by
  rw [upcoming?, upcoming?, withProgram]
  cases running : m.run with
  | none => rfl
  | some r =>
      simp only [Option.bind_some]
      cases place : r.lines[r.next]? with
      | none => rfl
      | some n =>
          have mem : n ∈ m.snapshot := by
            simpa [snapshot, running] using Array.mem_of_getElem? place
          exact same n mem

/-- A step sees of the program only the texts in the lines of the run. -/
theorem step_withProgram (ignores : m.IgnoresProgram)
    (same : ∀ n ∈ m.snapshot, p.find? n = m.program.find? n) :
    ∃ p', (m.withProgram p).step = (m.step.1.withProgram p', m.step.2) := by
  have next := upcoming?_withProgram same
  cases upcoming : m.upcoming? with
  | none =>
      rw [upcoming] at next
      rw [step_of_upcoming?_eq_none upcoming, step_of_upcoming?_eq_none next,
        counter_withProgram, snapshot_withProgram]
      refine ⟨p, ?_⟩
      split <;> rfl
  | some line =>
      rw [upcoming] at next
      rw [step_of_upcoming? upcoming, step_of_upcoming? next]
      obtain ⟨place, stored⟩ := place_of_upcoming? upcoming
      exact execute_withProgram
        (fun _ read => ignores.statement (Array.mem_of_getElem? place) stored read) m.advance p

theorem snapshot_advance (m : Machine) : m.advance.snapshot = m.snapshot := by
  rw [snapshot, snapshot, advance, Option.map_map]
  rfl

theorem counter_advance {r : Run} (running : m.run = some r) :
    m.advance.counter = m.counter + 1 := by
  simp [counter, advance, running]

/-- The loop goes back to the place behind a line of the run that opens a loop of its
variable. -/
def Anchors (m : Machine) (loop : Loop) : Prop :=
  ∃ (place : Nat) (line : ProgramLine) (s : Statement) (start limit : Expression)
    (step : Option Expression),
    loop.resume = place + 1 ∧ m.snapshot[place]? = some line.number ∧
      m.program.find? line.number = some line ∧ line.toLine.statement = .ok s ∧
      .loop loop.name start limit step ∈ s.leaves

/-- The next step closes the loop, whose variable does not pass the limit. -/
def GoesAround (m : Machine) (loop : Loop) : Prop :=
  ∃ line s name below v, m.upcoming? = some line ∧ line.toLine.statement = .ok s ∧
    m.advance.chosen s = .ok (some (.next name)) ∧
    m.advance.target? name = some (loop, below) ∧
    m.advance.following loop = .ok (v, true) ∧ m.advance.vars.HasRoom loop.name

theorem GoesAround.mem {loop : Loop} (h : m.GoesAround loop) : loop ∈ m.loops.entries := by
  obtain ⟨_, _, _, below, _, -, -, -, target, -, -⟩ := h
  exact (Stack.suffix_of_newest? target).subset List.mem_cons_self

theorem GoesAround.snapshot_ne_empty {loop : Loop} (h : m.GoesAround loop) :
    m.snapshot ≠ #[] := by
  obtain ⟨_, _, _, _, _, upcoming, -⟩ := h
  exact Machine.snapshot_ne_empty upcoming

/-- A loop that goes around leads to the place that was kept in it. -/
theorem GoesAround.step {loop : Loop} (h : m.GoesAround loop) :
    m.step.1.snapshot = m.snapshot ∧ m.step.1.counter = loop.resume := by
  obtain ⟨line, s, name, below, v, upcoming, read, choice, target, again, room⟩ := h
  obtain ⟨r, running, -⟩ := exists_run_of_upcoming? upcoming
  have moved : m.advance.run = some { r with next := r.next + 1 } := by
    rw [advance, running]
    rfl
  rw [step_of_upcoming? upcoming, execute_fst_of_statement read, perform_of_chosen choice, perform,
    closeLoop_of_target moved target, advanced_eq_ok_iff.mpr ⟨v, again, room, rfl⟩]
  exact ⟨by simp [snapshot, running], rfl⟩

/-- The run visits no more lines, or it is the run of the other machine, with the same
texts in its lines. The loops were open in the other machine or are anchored in its
lines. -/
structure Follows (m₀ m : Machine) : Prop where
  snapshot : m.snapshot = #[] ∨ m.snapshot = m₀.snapshot
  lines : ∀ n ∈ m.snapshot, m.program.find? n = m₀.program.find? n
  loops : ∀ loop ∈ m.loops.entries, loop ∈ m₀.loops.entries ∨ m₀.Anchors loop

namespace Follows

theorem refl (m : Machine) : m.Follows m := ⟨.inr rfl, fun _ _ => rfl, fun _ => .inl⟩

/-- The lines stay, or no more are visited, and the loops are old ones or anchored. -/
theorem keep (h : m₀.Follows m) (snapshot : m'.snapshot = #[] ∨ m'.snapshot = m.snapshot)
    (program : m'.program = m.program)
    (loops : ∀ loop ∈ m'.loops.entries, loop ∈ m.loops.entries ∨ m₀.Anchors loop) :
    m₀.Follows m' where
  snapshot := by
    rcases snapshot with ended | same
    · exact .inl ended
    · rw [same]
      exact h.snapshot
  lines := by
    rcases snapshot with ended | same
    · simp [ended]
    · rw [same, program]
      exact h.lines
  loops := by
    intro loop hloop
    rcases loops loop hloop with earlier | anchored
    · exact h.loops loop earlier
    · exact .inr anchored

theorem halt (h : m₀.Follows m) : m₀.Follows m.halt := h.keep (.inl rfl) rfl fun _ => .inl

theorem advance (h : m₀.Follows m) : m₀.Follows m.advance :=
  h.keep (.inr (snapshot_advance m)) rfl fun _ => .inl

theorem mem_snapshot (h : m₀.Follows m) {n : Nat} (mem : n ∈ m.snapshot) : n ∈ m₀.snapshot := by
  rcases h.snapshot with ended | same
  · simp [ended] at mem
  · exact same ▸ mem

/-- An edit outside of the lines of the run is not seen by it. -/
theorem edit (h : m₀.Follows m) {n : Nat} (spared : n ∉ m₀.snapshot) (statement : Text) :
    m₀.Follows (m.withProgram (m.program.edit n statement)) where
  snapshot := h.snapshot
  lines := by
    intro k mem
    have other : k ≠ n := fun same => spared (same ▸ h.mem_snapshot mem)
    exact (Program.find?_edit_of_ne other statement).trans (h.lines k mem)
  loops := h.loops

theorem ignoresProgram (h : m₀.Follows m) (ignores : m₀.IgnoresProgram) : m.IgnoresProgram := by
  intro n mem line stored
  exact ignores n (h.mem_snapshot mem) line (h.lines n mem ▸ stored)

/-- Performing a statement that does not start the program stays in the run, if the loop
that it may open goes back to the place from which the run goes on. -/
theorem performs {outcome : Outcome} (h : m₀.Follows m) (ignores : s.IgnoresProgram)
    (anchored : ∀ loop : Loop, loop.resume = m.counter →
      (∃ start limit step, .loop loop.name start limit step ∈ s.leaves) → m₀.Anchors loop)
    (performs : Performs m s m' outcome) : m₀.Follows m' := by
  cases performs with
  | undecided | skipped | commanded | unassigned | unopened | unmatched => exact h
  | stopped => exact h.halt
  | erased => exact ⟨.inl rfl, by simp [erase, initial, Machine.snapshot], nofun⟩
  | started choice => exact absurd rfl (ignores _ (mem_leaves_of_chosen choice)).2
  | assigned => exact h.keep (.inr rfl) rfl fun _ => .inl
  | refused =>
      exact h.keep (.inr rfl) rfl fun _ mem => .inl ((Loop.outside_suffix _ _).subset mem)
  | opened choice running =>
      refine h.keep (.inr rfl) rfl fun loop mem => ?_
      rcases List.mem_cons.mp mem with rfl | mem
      · refine .inr (anchored _ ?_ ⟨_, _, _, mem_leaves_of_chosen choice⟩)
        simp [counter, running]
      · exact .inl ((Loop.outside_suffix _ _).subset mem)
  | stuck _ _ target =>
      exact h.keep (.inr rfl) rfl fun _ mem => .inl ((Stack.suffix_of_newest? target).subset mem)
  | continued _ running target =>
      refine h.keep (.inr ?_) rfl fun _ mem => .inl ((Stack.suffix_of_newest? target).subset mem)
      simp [Machine.snapshot, running]
  | finished _ _ target =>
      exact h.keep (.inr rfl) rfl fun _ mem =>
        .inl ((Stack.suffix_of_newest? target).subset (List.mem_cons_of_mem _ mem))

/-- A step of the run stays in it. -/
theorem step (h : m₀.Follows m) (ignores : m₀.IgnoresProgram) : m₀.Follows m.step.1 := by
  cases upcoming : m.upcoming? with
  | none =>
      rw [step_of_upcoming?_eq_none upcoming]
      split
      · exact h.advance
      · exact h.halt
  | some line =>
      rw [step_of_upcoming? upcoming]
      obtain ⟨place, stored⟩ := place_of_upcoming? upcoming
      have mem := Array.mem_of_getElem? place
      rw [h.snapshot.resolve_left (snapshot_ne_empty upcoming)] at place
      rw [h.lines _ mem] at stored
      cases read : line.toLine.statement with
      | error e =>
          rw [execute, read]
          exact h.advance
      | ok s =>
          rw [execute_fst_of_statement read]
          refine h.advance.performs (ignores.statement (h.mem_snapshot mem) stored read) ?_
            (m.advance.performs s)
          rintro loop resume ⟨start, limit, step, leaf⟩
          obtain ⟨r, running, -⟩ := exists_run_of_upcoming? upcoming
          exact ⟨m.counter, line, s, start, limit, step, resume.trans (counter_advance running),
            place, stored, read, leaf⟩

end Follows

end Machine

end LineBasic
