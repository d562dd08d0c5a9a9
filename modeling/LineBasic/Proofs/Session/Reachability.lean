import LineBasic.Proofs.Machine.Soundness

/-!
# What every reachable session keeps

Whatever lines a host enters, however it slices their execution and whenever it
requests a break, the machine of its session is sound (`Session.Reachable.sound`). Entering
a line may edit the program under a run, but not the lines that the run visits.
-/

namespace LineBasic

/-- A number that was read is in range. -/
theorem Line.number_le_of_read {t : Text} {l : Line} (h : read t = .ok l) :
    ∀ n ∈ l.number, n ≤ maxNumber := by
  simp only [read] at h
  split at h
  · cases h
    exact nofun
  · split at h
    · next bounded =>
      cases h
      rintro _ ⟨⟩
      exact bounded
    · cases h

/-- A line that cannot be read has a number out of range. -/
theorem Line.raised_of_read {t : Text} {e : Error} (h : read t = .error e) : e.Raised := by
  simp only [read] at h
  split at h
  · cases h
  · split at h
    · cases h
    · cases h
      exact ⟨rfl, by decide, by decide, rfl⟩

/-- A statement that cannot be read is a syntax error in its line. -/
theorem Line.exists_malformed {l : Line} {e : Error} (h : l.statement = .error e) :
    ∃ malformed : Malformed,
      e = { Error.because .syntaxError malformed.detail with line := l.number } := by
  rw [statement, Statement.parse] at h
  cases read : Statement.read l.text with
  | error malformed =>
      rw [read] at h
      exact ⟨malformed, (Except.error.inj h).symm⟩
  | ok s =>
      rw [read] at h
      cases h

namespace Machine

variable {m : Machine}

/-- The line that a break names stands among the lines of the run. -/
theorem Sound.exists_pendingLine? (h : m.Sound) {r : Run} (running : m.run = some r) :
    ∃ n ∈ r.lines, r.pendingLine? = some n := by
  cases place : r.lines[r.next]? with
  | some n => exact ⟨n, Array.mem_of_getElem? place, by simp [Run.pendingLine?, place]⟩
  | none =>
      cases last : r.lines.back? with
      | some n => exact ⟨n, Array.mem_of_back? last, by simp [Run.pendingLine?, place, last]⟩
      | none => exact absurd (Array.back?_eq_none_iff.mp last) (h.run r running).nonempty

end Machine

namespace Session

variable {s : Session} {m : Machine} {queue : List Line}

/-- The machine is sound, direct lines wait, and what was put aside are errors of reading. -/
structure Sound (s : Session) : Prop where
  machine : s.machine.Sound
  queue : ∀ l ∈ s.queue, l.number = none
  rejected : ∀ e ∈ s.rejected, e.Raised

namespace Sound

theorem reject (h : s.Sound) {e : Error} (raised : e.Raised) : (s.reject e).Sound where
  machine := h.machine
  queue := h.queue
  rejected := by
    intro e' he'
    rcases List.mem_append.mp he' with he' | he'
    · exact h.rejected e' he'
    · rw [List.mem_singleton.mp he']
      exact raised

theorem accept (h : s.Sound) {l : Line} (bounded : ∀ n ∈ l.number, n ≤ Line.maxNumber) :
    (s.accept l).1.Sound := by
  rw [Session.accept]
  cases number : l.number with
  | none =>
      dsimp only
      split
      · exact h
      · refine ⟨h.machine.halt, ?_, h.rejected⟩
        intro l' hl'
        rcases List.mem_append.mp hl' with hl' | hl'
        · exact h.queue l' hl'
        · rw [List.mem_singleton.mp hl']
          exact number
  | some n =>
      refine ⟨h.machine.edit ?_, h.queue, h.rejected⟩
      split
      · exact h.machine.program.remove n
      · next filled =>
        exact h.machine.program.insert (bounded n number) (by simpa [Line.isEmpty] using filled)

theorem enter (h : s.Sound) (t : Text) : (s.enter t).1.Sound := by
  rw [Session.enter]
  split
  · exact h.reject ⟨rfl, by decide, by decide, rfl⟩
  · cases read : Line.read t with
    | error e => exact h.reject (Line.raised_of_read read)
    | ok l => exact h.accept (Line.number_le_of_read read)

theorem work (h : m.Sound) (numberless : ∀ l ∈ queue, l.number = none) (budget : Nat)
    (output : Array Display.Command) : (work budget queue m output).session.Sound := by
  fun_induction Session.work budget queue m output with
  | case1 queue m output running => exact ⟨h, numberless, by simp⟩
  | case2 queue m output running budget m' commands step ih =>
      have fst : m.step.1 = m' := congrArg Prod.fst step
      exact ih (fst ▸ h.step) numberless
  | case3 budget m output direct => exact ⟨h, by simp, by simp⟩
  | case4 budget m output direct l queue m' commands executed ih =>
      have fst : (m.execute l).1 = m' := congrArg Prod.fst executed
      have halted := Machine.isRunning_eq_false_iff.mp (Bool.eq_false_iff.mpr direct)
      exact ih (fst ▸ h.execute (Machine.moved_of_run_eq_none halted) l) fun l' hl' =>
        numberless l' (List.mem_cons_of_mem l hl')

theorem resumed (h : s.Sound) : s.resumed.Sound := by
  rw [Session.resumed]
  split
  · exact h.machine.halt
  · exact h.machine

theorem execute (h : s.Sound) (budget : Nat) : (s.execute budget).session.Sound := by
  rw [execute_eq_work]
  exact .work h.resumed h.queue budget _

theorem finish (h : s.Sound) {budget fuel : Nat} {output : Array Display.Command}
    {result : Session × Array Display.Command}
    (finished : finish budget fuel s output = some result) : result.1.Sound := by
  induction fuel generalizing s output with
  | zero => cases finished
  | succ fuel ih =>
      rw [Session.finish] at finished
      split at finished
      · obtain rfl := Option.some.inj finished
        exact h.execute budget
      · exact ih (h.execute budget) finished

end Sound

theorem Reachable.sound (h : Reachable s) : s.Sound := by
  induction h with
  | initial => exact ⟨.initial, by simp [Session.initial], by simp [Session.initial]⟩
  | enter t _ ih => exact ih.enter t
  | execute budget _ ih => exact ih.execute budget
  | process _ processed ih => exact (ih.enter _).finish processed
  | interrupt _ ih => exact ⟨ih.machine, ih.queue, ih.rejected⟩

end Session

end LineBasic
