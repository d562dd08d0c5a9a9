import LineBasic.Proofs.Machine.Performance
import LineBasic.Proofs.Session.History

/-!
# Sound machines

What holds of every machine between two steps: the program is in order, variables
have canonical names and are not too many, open loops belong to different variables
that are stored, and a run keeps its place and the places of its loops inside the
lines that it began with.

Loops outlive the run that opened them, so nothing is said of their places when no
program runs. They are never resumed by a later run, since starting one gives them
all up.
-/

namespace LineBasic

namespace Stack

variable {α : Type} {p : α → Bool} {s below : Stack α} {x : α}

theorem newest?_eq_none_iff : s.newest? p = none ↔ ∀ x ∈ s.entries, p x = false := by
  have unmatched : s.newest? p = none ↔ s.entries.dropWhile (fun x => !p x) = [] := by
    rw [newest?]
    split <;> simp [*]
  rw [unmatched, List.dropWhile_eq_nil_iff]
  simp

/-- A match and the entries below it are the oldest entries of the stack. -/
theorem suffix_of_newest? (h : s.newest? p = some (x, below)) :
    x :: below.entries <:+ s.entries := by
  obtain ⟨-, above, entries, -⟩ := newest?_eq_some_iff.mp h
  exact ⟨above, entries.symm⟩

theorem satisfies_of_newest? (h : s.newest? p = some (x, below)) : p x = true :=
  (newest?_eq_some_iff.mp h).1

end Stack

/-- Lines ascend, their numbers are in range, and each has a statement. -/
structure Program.Sound (p : Program) : Prop where
  ascending : p.Ascending
  bounded : ∀ l ∈ p.lines, l.number ≤ Line.maxNumber
  nonempty : ∀ l ∈ p.lines, l.text ≠ []

namespace Program.Sound

variable {p : Program}

theorem empty : Program.empty.Sound where
  ascending := ascending_empty
  bounded := by simp [Program.empty]
  nonempty := by simp [Program.empty]

theorem remove (h : p.Sound) (n : Nat) : (p.remove n).Sound where
  ascending := ascending_remove h.ascending n
  bounded := fun l hl => h.bounded l (List.mem_of_mem_filter hl)
  nonempty := fun l hl => h.nonempty l (List.mem_of_mem_filter hl)

theorem mem_insertInto {l x : ProgramLine} {lines : List ProgramLine}
    (h : x ∈ insertInto l lines) : x = l ∨ x ∈ lines := by
  induction lines with
  | nil => simpa [insertInto] using h
  | cons y lines ih =>
      rw [insertInto] at h
      split at h
      · exact List.mem_cons.mp h
      · split at h
        · rcases List.mem_cons.mp h with rfl | h
          · exact .inl rfl
          · exact .inr (List.mem_cons_of_mem y h)
        · rcases List.mem_cons.mp h with rfl | h
          · exact .inr List.mem_cons_self
          · exact (ih h).imp_right (List.mem_cons_of_mem y)

theorem insert (h : p.Sound) {l : ProgramLine} (bounded : l.number ≤ Line.maxNumber)
    (nonempty : l.text ≠ []) : (p.insert l).Sound where
  ascending := ascending_insert h.ascending l
  bounded := by
    intro x hx
    rcases mem_insertInto hx with rfl | hx
    · exact bounded
    · exact h.bounded x hx
  nonempty := by
    intro x hx
    rcases mem_insertInto hx with rfl | hx
    · exact nonempty
    · exact h.nonempty x hx

end Program.Sound

/-- There are not too many variables, and all their names are canonical. -/
structure Variables.Sound (vars : Variables) : Prop where
  bounded : vars.size ≤ capacity
  canonical : ∀ name, vars.contains name = true → name.IsCanonical

theorem Variables.Sound.insert {vars : Variables} {name : Text} (h : vars.Sound)
    (canonical : name.IsCanonical) (room : vars.HasRoom name) (v : Value) :
    (vars.insert name v).Sound where
  bounded := by
    rw [size_insert]
    split
    · exact h.bounded
    · next new => exact room.resolve_left new
  canonical := by
    intro other hother
    rw [contains_insert, Bool.or_eq_true, beq_iff_eq] at hother
    rcases hother with rfl | hother
    · exact canonical
    · exact h.canonical other hother

/-- The loops are not too many, belong to different variables, and these are stored. -/
structure Loop.Nested (loops : Stack Loop) (vars : Variables) : Prop where
  depth : loops.size ≤ Stack.capacity
  distinct : (loops.entries.map Loop.name).Nodup
  stored : ∀ l ∈ loops.entries, vars.contains l.name = true

/-- The run has lines, in order, and neither its own place nor that to which a loop
goes back lies outside of them. -/
structure Run.Sound (r : Run) (loops : Stack Loop) : Prop where
  nonempty : r.lines ≠ #[]
  ascending : r.lines.toList.Pairwise (· < ·)
  bounded : r.next ≤ r.lines.size
  resumes : ∀ l ∈ loops.entries, 1 ≤ l.resume ∧ l.resume ≤ r.lines.size

namespace Loop

variable {loops : Stack Loop} {vars : Variables} {name : Text}

theorem outside_suffix (name : Text) (loops : Stack Loop) :
    (outside name loops).entries <:+ loops.entries := by
  rw [outside]
  split
  · next loop below h => exact (List.suffix_cons _ _).trans (Stack.suffix_of_newest? h)
  · exact List.suffix_refl _

/-- No loop outside belongs to the variable itself. -/
theorem name_ne_of_mem_outside (distinct : (loops.entries.map Loop.name).Nodup) {l : Loop}
    (hl : l ∈ (outside name loops).entries) : l.name ≠ name := by
  rw [outside] at hl
  split at hl
  · next loop below h =>
    have own : loop.name = name := by simpa using Stack.satisfies_of_newest? h
    have inner := distinct.sublist ((Stack.suffix_of_newest? h).sublist.map Loop.name)
    rw [List.map_cons, List.nodup_cons] at inner
    intro same
    exact inner.1 (own.trans same.symm ▸ List.mem_map_of_mem hl)
  · next h => simpa using Stack.newest?_eq_none_iff.mp h l hl

namespace Nested

theorem empty (vars : Variables) : Nested .empty vars where
  depth := by decide
  distinct := List.nodup_nil
  stored := by simp [Stack.empty]

theorem giveUp (h : Nested loops vars) {entries : List Loop} (suffix : entries <:+ loops.entries) :
    Nested ⟨entries⟩ vars where
  depth := Nat.le_trans suffix.length_le h.depth
  distinct := h.distinct.sublist (suffix.sublist.map Loop.name)
  stored := fun l hl => h.stored l (suffix.subset hl)

theorem insert (h : Nested loops vars) (name : Text) (v : Value) :
    Nested loops (vars.insert name v) where
  depth := h.depth
  distinct := h.distinct
  stored := fun l hl => by simp [h.stored l hl]

/-- A loop is opened outside of which no loop has its variable. -/
theorem push (h : Nested loops vars) (l : Loop) (free : loops.size < Stack.capacity)
    (new : ∀ other ∈ loops.entries, other.name ≠ l.name) (v : Value) :
    Nested ⟨l :: loops.entries⟩ (vars.insert l.name v) where
  depth := free
  distinct := by
    rw [List.map_cons, List.nodup_cons]
    refine ⟨?_, h.distinct⟩
    intro hl
    obtain ⟨other, hother, same⟩ := List.mem_map.mp hl
    exact new other hother same
  stored := by
    intro other hother
    rcases List.mem_cons.mp hother with rfl | hother
    · simp
    · simp [h.stored other hother]

end Nested

end Loop

namespace Machine

variable {m : Machine}

/-- What holds between two steps. -/
structure Sound (m : Machine) : Prop where
  program : m.program.Sound
  vars : m.vars.Sound
  loops : Loop.Nested m.loops m.vars
  run : ∀ r, m.run = some r → r.Sound m.loops

/-- The counter of a run has moved past its first line. It has whenever a statement of
the program is performed, so that a loop never goes back before the first line. -/
def Moved (m : Machine) : Prop := ∀ r, m.run = some r → 1 ≤ r.next

theorem start_of_isEmpty (h : m.program.isEmpty = true) :
    m.start = { m with run := none, loops := .empty } := by
  simp only [start, h, if_true]

theorem start_of_filled (h : m.program.isEmpty = false) :
    m.start =
      { m with
        run := some { lines := m.program.numbers.toArray, next := 0 }
        loops := .empty } := by
  simp only [start, h, Bool.false_eq_true, if_false]

theorem moved_advance (m : Machine) : m.advance.Moved := by
  intro r hr
  obtain ⟨r', -, rfl⟩ := Option.map_eq_some_iff.mp hr
  exact Nat.le_add_left 1 r'.next

theorem moved_of_run_eq_none (h : m.run = none) : m.Moved := by
  intro r hr
  simp [h] at hr

/-- The line that comes next stands inside the lines of the run. -/
theorem within_of_upcoming? {line : ProgramLine} (h : m.upcoming? = some line) :
    m.counter < m.snapshot.size := by
  obtain ⟨r, running, h⟩ := Option.bind_eq_some_iff.mp h
  obtain ⟨n, place, -⟩ := Option.bind_eq_some_iff.mp h
  simp only [counter, snapshot, running, Option.map_some, Option.getD_some]
  exact (Array.getElem?_eq_some_iff.mp place).1

namespace Sound

theorem initial : Machine.initial.Sound where
  program := .empty
  vars := ⟨Nat.zero_le _, fun _ h => nomatch h⟩
  loops := .empty _
  run := nofun

theorem halt (h : m.Sound) : m.halt.Sound where
  program := h.program
  vars := h.vars
  loops := h.loops
  run := nofun

/-- Another program may be put under a run: its lines and its place stay. -/
theorem edit (h : m.Sound) {program : Program} (sound : program.Sound) :
    { m with program }.Sound where
  program := sound
  vars := h.vars
  loops := h.loops
  run := h.run

theorem assign (h : m.Sound) {name : Text} (canonical : name.IsCanonical)
    (room : m.vars.HasRoom name) (v : Value) :
    { m with vars := m.vars.insert name v }.Sound where
  program := h.program
  vars := h.vars.insert canonical room v
  loops := h.loops.insert name v
  run := h.run

theorem giveUp (h : m.Sound) {entries : List Loop} (suffix : entries <:+ m.loops.entries) :
    { m with loops := ⟨entries⟩ }.Sound where
  program := h.program
  vars := h.vars
  loops := h.loops.giveUp suffix
  run := fun r hr => { h.run r hr with
    resumes := fun l hl => (h.run r hr).resumes l (suffix.subset hl) }

/-- The run goes on at any place up to the end of its lines. -/
theorem jump (h : m.Sound) {r : Run} (running : m.run = some r) {next : Nat}
    (bounded : next ≤ r.lines.size) : { m with run := some { r with next } }.Sound where
  program := h.program
  vars := h.vars
  loops := h.loops
  run := by
    rintro _ ⟨⟩
    exact { h.run r running with bounded }

/-- A started run begins with all lines of the program and with no loops. -/
theorem start (h : m.Sound) : m.start.Sound := by
  cases filled : m.program.isEmpty with
  | true =>
      rw [start_of_isEmpty filled]
      exact ⟨h.program, h.vars, .empty _, nofun⟩
  | false =>
      rw [start_of_filled filled]
      refine ⟨h.program, h.vars, .empty _, ?_⟩
      rintro _ ⟨⟩
      refine ⟨?_, h.program.ascending, Nat.zero_le _, nofun⟩
      simpa [Program.isEmpty, Program.numbers] using filled

theorem push (h : m.Sound) {r : Run} (running : m.run = some r) (moved : 1 ≤ r.next)
    {name : Text} (canonical : name.IsCanonical) (room : m.vars.HasRoom name) (v : Value)
    (free : (Loop.outside name m.loops).size < Stack.capacity) (limit step : Int32) :
    { m with
      vars := m.vars.insert name v
      loops := ⟨{ name, limit, step, resume := r.next } ::
        (Loop.outside name m.loops).entries⟩ }.Sound where
  program := h.program
  vars := h.vars.insert canonical room v
  loops := (h.loops.giveUp (Loop.outside_suffix name m.loops)).push _ free
    (fun _ hl => Loop.name_ne_of_mem_outside h.loops.distinct hl) v
  run := by
    intro r' hr'
    obtain rfl := Option.some.inj (running.symm.trans hr')
    have sound := h.run r running
    refine { sound with resumes := ?_ }
    intro l hl
    rcases List.mem_cons.mp hl with rfl | hl
    · exact ⟨moved, sound.bounded⟩
    · exact sound.resumes l ((Loop.outside_suffix name m.loops).subset hl)

/-- The variable of an open loop has a canonical name. -/
theorem canonical_of_mem (h : m.Sound) {l : Loop} (hl : l ∈ m.loops.entries) :
    l.name.IsCanonical :=
  h.vars.canonical l.name (h.loops.stored l hl)

/-- Whatever a statement comes to, the machine stays sound. -/
theorem performs {s : Statement} {m' : Machine} {o : Outcome} (h : m.Sound) (moved : m.Moved)
    (names : s.NamesCanonical) (p : Performs m s m' o) : m'.Sound := by
  have canonical {leaf : Statement} {name : Text} (choice : m.chosen s = .ok (some leaf))
      (named : leaf.named? = some name) : name.IsCanonical :=
    names leaf (mem_leaves_of_chosen choice) name named
  cases p with
  | undecided | skipped | commanded | unassigned | unopened | unmatched => exact h
  | stopped => exact h.halt
  | erased => exact .initial
  | started => exact h.start
  | assigned choice evaluated room => exact h.assign (canonical choice rfl) room _
  | refused choice running first last stride room full =>
      exact (h.assign (canonical choice rfl) room _).giveUp (Loop.outside_suffix _ _)
  | opened choice running first last stride room free =>
      exact h.push running (moved _ running) (canonical choice rfl) room _ free _ _
  | stuck choice running target raised => exact h.giveUp (Stack.suffix_of_newest? target)
  | @continued name r loop below v choice running target room again =>
      have suffix := Stack.suffix_of_newest? target
      have mem : loop ∈ m.loops.entries := suffix.subset List.mem_cons_self
      exact ((h.assign (h.canonical_of_mem mem) room _).giveUp suffix).jump running
        ((h.run r running).resumes loop mem).2
  | @finished name r loop below v choice running target room done =>
      have suffix := Stack.suffix_of_newest? target
      have mem : loop ∈ m.loops.entries := suffix.subset List.mem_cons_self
      exact (h.assign (h.canonical_of_mem mem) room _).giveUp
        ((List.suffix_cons _ _).trans suffix)

theorem perform (h : m.Sound) (moved : m.Moved) {s : Statement} (names : s.NamesCanonical) :
    (m.perform s).1.Sound :=
  h.performs moved names (m.performs s)

theorem execute (h : m.Sound) (moved : m.Moved) (l : Line) : (m.execute l).1.Sound := by
  cases read : l.statement with
  | error e =>
      rw [Machine.execute]
      simp only [read]
      exact h
  | ok s =>
      rw [execute_fst_of_statement read]
      exact h.perform moved (Statement.namesCanonical_of_parse read)

theorem advance (h : m.Sound) (within : m.counter < m.snapshot.size) : m.advance.Sound := by
  cases running : m.run with
  | none =>
      rw [Machine.advance, running, Option.map_none, ← running]
      exact h
  | some r =>
      simp only [counter, snapshot, running, Option.map_some, Option.getD_some] at within
      rw [Machine.advance, running, Option.map_some]
      exact h.jump running within

theorem step (h : m.Sound) : m.step.1.Sound := by
  cases upcoming : m.upcoming? with
  | some line =>
      rw [step_of_upcoming? upcoming]
      exact (h.advance (within_of_upcoming? upcoming)).execute (moved_advance m) line.toLine
  | none =>
      rw [step_of_upcoming?_eq_none upcoming]
      split
      · next within => exact h.advance within
      · exact h.halt

end Sound

/-- The error of a statement is one that statements raise. -/
theorem Performs.raised {s : Statement} {m' : Machine} {o : Outcome} (p : Performs m s m' o)
    {e : Error} (failed : o = .error e) : e.Raised := by
  cases p with
  | undecided choice raised | unassigned choice raised | unopened choice raised =>
      cases failed
      exact raised
  | unmatched choice raised none =>
      cases failed
      exact raised
  | stuck choice running target raised =>
      cases failed
      exact raised
  | refused =>
      cases failed
      exact ⟨rfl, by decide, by decide, rfl⟩
  | commanded choice command => exact raises_commands _ e failed
  | _ => cases failed

end Machine

end LineBasic
