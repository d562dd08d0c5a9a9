import LineBasic.Proofs.Session.History

/-!
# Cutting work into slices

A budget bounds the program steps of one slice, and the host takes as many slices
as it needs. How the steps are cut into slices decides only when the host gets its
turn: a slice with the budget `a + b` does what a slice with `a` and then one with
`b` do, and no more than the first one if that has nothing left to do.

Consequently a line that is executed to its end leaves the same session and
commands the same display whatever the size of its slices.
-/

namespace LineBasic

namespace Slice

/-- The slice with commands in front that were given before it. -/
def behind (slice : Slice) (earlier : Array Display.Command) : Slice :=
  { slice with output := earlier ++ slice.output }

@[simp] theorem behind_activity (slice : Slice) (earlier : Array Display.Command) :
    (slice.behind earlier).activity = slice.activity := rfl

@[simp] theorem behind_session (slice : Slice) (earlier : Array Display.Command) :
    (slice.behind earlier).session = slice.session := rfl

@[simp] theorem behind_output (slice : Slice) (earlier : Array Display.Command) :
    (slice.behind earlier).output = earlier ++ slice.output := rfl

end Slice

namespace Session

variable {s : Session} {queue : List Line} {m : Machine} {output : Array Display.Command}

theorem work_spent (h : m.isRunning = true) :
    work 0 queue m output = ⟨.running, { machine := m, queue }, output⟩ := by
  rw [work.eq_def, if_pos h]

theorem work_step (budget : Nat) (h : m.isRunning = true) :
    work (budget + 1) queue m output = work budget queue m.step.1 (output ++ m.step.2) := by
  rw [work.eq_def, if_pos h]

theorem work_done (budget : Nat) (h : m.isRunning = false) :
    work budget [] m output = ⟨.stopped, { machine := m }, output⟩ := by
  rw [work.eq_def, if_neg (by simp [h])]

theorem work_direct (budget : Nat) (l : Line) (h : m.isRunning = false) :
    work budget (l :: queue) m output =
      work budget queue (m.execute l).1 (output ++ (m.execute l).2) := by
  rw [work.eq_def, if_neg (by simp [h])]

/-- Working never looks at what was commanded before. -/
theorem work_append (budget : Nat) (queue : List Line) (m : Machine)
    (earlier output : Array Display.Command) :
    work budget queue m (earlier ++ output) = (work budget queue m output).behind earlier := by
  have assoc (commands : List Display.Command) (output : Array Display.Command) :
      earlier ++ output ++ commands = earlier ++ (output ++ commands) := by
    simp [← Array.toList_inj]
  fun_induction work budget queue m output with
  | case1 queue m output running => exact work_spent running
  | case2 queue m output running budget m' commands step ih =>
      rw [work_step budget running, step, assoc]
      exact ih
  | case3 budget m output direct => exact work_done budget (by simpa using direct)
  | case4 budget m output direct l queue m' commands executed ih =>
      rw [work_direct budget l (by simpa using direct), executed, assoc]
      exact ih

/-- A larger budget is of no use when nothing is left to do. -/
theorem work_add_of_stopped (a b : Nat) (queue : List Line) (m : Machine)
    (output : Array Display.Command) (h : (work a queue m output).activity = .stopped) :
    work (a + b) queue m output = work a queue m output := by
  fun_induction work a queue m output with
  | case1 queue m output running => cases h
  | case2 queue m output running budget m' commands step ih =>
      rw [Nat.succ_add, work_step _ running, step]
      exact ih h
  | case3 budget m output direct => exact work_done _ (by simpa using direct)
  | case4 budget m output direct l queue m' commands executed ih =>
      rw [work_direct _ l (by simpa using direct), executed]
      exact ih h

/-- A larger budget goes on where the smaller one was spent. -/
theorem work_add_of_running (a b : Nat) (queue : List Line) (m : Machine)
    (output : Array Display.Command) (h : (work a queue m output).activity = .running) :
    work (a + b) queue m output =
      ((work a queue m output).session.execute b).behind (work a queue m output).output := by
  fun_induction work a queue m output with
  | case1 queue m output running =>
      rw [Nat.zero_add]
      exact work_append b queue m output #[]
  | case2 queue m output running budget m' commands step ih =>
      rw [Nat.succ_add, work_step _ running, step]
      exact ih h
  | case3 budget m output direct => cases h
  | case4 budget m output direct l queue m' commands executed ih =>
      rw [work_direct _ l (by simpa using direct), executed]
      exact ih h

theorem execute_add_of_stopped (a b : Nat) (h : (s.execute a).activity = .stopped) :
    s.execute (a + b) = s.execute a :=
  work_add_of_stopped a b _ _ _ h

theorem execute_add_of_running (a b : Nat) (h : (s.execute a).activity = .running) :
    s.execute (a + b) = ((s.execute a).session.execute b).behind (s.execute a).output :=
  work_add_of_running a b _ _ _ h

/-- Two budgets that both suffice do the same. -/
theorem execute_eq_of_stopped {a b : Nat} (ha : (s.execute a).activity = .stopped)
    (hb : (s.execute b).activity = .stopped) : s.execute a = s.execute b := by
  rcases Nat.le_total a b with hab | hba
  · obtain ⟨c, rfl⟩ := Nat.exists_eq_add_of_le hab
    exact (execute_add_of_stopped a c ha).symm
  · obtain ⟨c, rfl⟩ := Nat.exists_eq_add_of_le hba
    exact execute_add_of_stopped b c hb

/-- A budget that does not suffice is smaller than one that does. -/
theorem lt_of_running_of_stopped {a b : Nat} (ha : (s.execute a).activity = .running)
    (hb : (s.execute b).activity = .stopped) : a < b := by
  apply Nat.lt_of_not_le
  intro hba
  obtain ⟨c, rfl⟩ := Nat.exists_eq_add_of_le hba
  rw [execute_add_of_stopped b c hb, hb] at ha
  cases ha

/-- Slices with one budget after the other until nothing is left to do; `fuel` bounds
their number. -/
def finishWith (budget : Nat → Nat) (fuel : Nat) (s : Session)
    (output : Array Display.Command) : Option (Session × Array Display.Command) :=
  match fuel with
  | 0 => none
  | fuel + 1 =>
    let slice := s.execute (budget 0)
    match slice.activity with
    | .stopped => some (slice.session, output ++ slice.output)
    | .running =>
      finishWith (fun i => budget (i + 1)) fuel slice.session (output ++ slice.output)

theorem finishWith_const (n fuel : Nat) (s : Session) (output : Array Display.Command) :
    finishWith (fun _ => n) fuel s output = finish n fuel s output := by
  induction fuel generalizing s output with
  | zero => rfl
  | succ fuel ih =>
      rw [finishWith, finish]
      cases (s.execute n).activity with
      | stopped => rfl
      | running => exact ih _ _

/-- Slices that make some steps end exactly when some single slice would, and they
leave and command what that one does. -/
theorem exists_finishWith_iff {budget : Nat → Nat} (positive : ∀ i, 0 < budget i) (s : Session)
    (output : Array Display.Command) (result : Session × Array Display.Command) :
    (∃ fuel, finishWith budget fuel s output = some result) ↔
      ∃ total, (s.execute total).activity = .stopped ∧
        result = ((s.execute total).session, output ++ (s.execute total).output) := by
  constructor
  · rintro ⟨fuel, h⟩
    induction fuel generalizing budget s output with
    | zero => cases h
    | succ fuel ih =>
        rw [finishWith] at h
        cases ha : (s.execute (budget 0)).activity with
        | stopped =>
            simp only [ha, Option.some.injEq] at h
            exact ⟨budget 0, ha, h.symm⟩
        | running =>
            simp only [ha] at h
            obtain ⟨total, stopped, rfl⟩ := ih (fun i => positive (i + 1)) _ _ h
            refine ⟨budget 0 + total, ?_, ?_⟩
            · rw [execute_add_of_running _ total ha]
              exact stopped
            · rw [execute_add_of_running _ total ha, Slice.behind_session, Slice.behind_output,
                Array.append_assoc]
  · rintro ⟨total, stopped, rfl⟩
    induction total using Nat.strongRecOn generalizing budget s output with
    | ind total ih =>
        cases ha : (s.execute (budget 0)).activity with
        | stopped =>
            refine ⟨1, ?_⟩
            rw [finishWith, execute_eq_of_stopped ha stopped, stopped]
        | running =>
            have first := positive 0
            obtain ⟨rest, rfl⟩ :=
              Nat.exists_eq_add_of_le (Nat.le_of_lt (lt_of_running_of_stopped ha stopped))
            rw [execute_add_of_running _ rest ha] at stopped ⊢
            obtain ⟨fuel, h⟩ := ih rest (by omega) (fun i => positive (i + 1))
              (s.execute (budget 0)).session (output ++ (s.execute (budget 0)).output) stopped
            refine ⟨fuel + 1, ?_⟩
            rw [finishWith]
            simp only [ha, h, Slice.behind_session, Slice.behind_output, Array.append_assoc]

/-- Slices of one size end exactly when some single slice would, and they leave
and command what that one does. -/
theorem exists_finish_iff {n : Nat} (hn : 0 < n) (s : Session)
    (output : Array Display.Command) (result : Session × Array Display.Command) :
    (∃ fuel, finish n fuel s output = some result) ↔
      ∃ total, (s.execute total).activity = .stopped ∧
        result = ((s.execute total).session, output ++ (s.execute total).output) := by
  simp only [← finishWith_const]
  exact exists_finishWith_iff (fun _ => hn) s output result

/-- Neither the cut between two slices nor the size of the slices of a line that
is executed to its end can be told from what is done. -/
theorem slicing_invisible (s : Session) (a b : Nat) :
    ((s.execute a).activity = .stopped → s.execute (a + b) = s.execute a) ∧
    ((s.execute a).activity = .running →
      let rest := (s.execute a).session.execute b
      s.execute (a + b) = ⟨rest.activity, rest.session, (s.execute a).output ++ rest.output⟩) ∧
    ∀ (t : Text) (size : Nat), 0 < size → ∀ result,
      (∃ fuel, finish size fuel (s.enter t).1 #[] = some result) ↔
        ∃ fuel, process fuel s t = some result := by
  refine ⟨execute_add_of_stopped a b, execute_add_of_running a b, ?_⟩
  intro t size positive result
  exact (exists_finish_iff positive _ _ _).trans
    (exists_finish_iff (by decide : 0 < defaultBudget) _ _ _).symm

/-- A loop of two rounds, about to be run. Its run takes four steps: the loop is opened
once and closed twice, and then the end is seen. -/
def twoRounds : Session :=
  initial.enterAll ["10 FOR I=1 TO 2".toList, "20 NEXT".toList, "RUN".toList]

theorem slicing_invisible_twoRounds :
    (twoRounds.execute 4).activity = .stopped ∧
    twoRounds.execute (4 + 3) = twoRounds.execute 4 ∧
    (twoRounds.execute 2).activity = .running ∧
    twoRounds.execute (2 + 2) =
      ⟨((twoRounds.execute 2).session.execute 2).activity,
        ((twoRounds.execute 2).session.execute 2).session,
        (twoRounds.execute 2).output ++ ((twoRounds.execute 2).session.execute 2).output⟩ ∧
    ∀ result, (∃ fuel, finish 1 fuel (twoRounds.enter "PRINT I".toList).1 #[] = some result) ↔
      ∃ fuel, process fuel twoRounds "PRINT I".toList = some result := by
  have stopped : (twoRounds.execute 4).activity = .stopped := by decide +kernel
  have running : (twoRounds.execute 2).activity = .running := by decide +kernel
  exact ⟨stopped, (slicing_invisible twoRounds 4 3).1 stopped, running,
    (slicing_invisible twoRounds 2 2).2.1 running,
    (slicing_invisible twoRounds 0 0).2.2 "PRINT I".toList 1 Nat.one_pos⟩

end Session

end LineBasic
