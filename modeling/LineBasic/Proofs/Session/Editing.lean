import LineBasic.Proofs.Machine.Editing
import LineBasic.Proofs.Session.Calls

/-!
# Editing a running program

Lines may be edited while the program runs. The run goes through the lines that the
program had when it began, so an edit to any other line is not noticed until the program
is started again. Unless a line of the run lists or starts the program, every slice does
and commands what it does without the edit, and it leaves the same behind but for the
listing.

The argument follows two sessions through the same slices. They differ in the program
only, and both continue the run that they began with (`Continues`).

Main statement: `Session.edits_do_not_disturb`.
-/

namespace LineBasic

namespace Machine

theorem interrupt_withProgram_snd (m : Machine) (p : Program) :
    (m.withProgram p).interrupt.2 = m.interrupt.2 := by
  cases running : m.run <;> simp only [interrupt, withProgram, running]

end Machine

namespace Session

/-- The session with another program in its machine. -/
def withProgram (s : Session) (p : Program) : Session :=
  { s with machine := s.machine.withProgram p }

end Session

/-- The slice with another program in the machine that it leaves. -/
def Slice.withProgram (slice : Slice) (p : Program) : Slice :=
  { slice with session := slice.session.withProgram p }

namespace Session

/-- If the call enters a line, it edits the program, and does so outside of the given lines. -/
def Call.Spares (lines : Array Nat) : Call → Prop
  | enter t => ∃ n statement, Line.intake t = .edit n statement ∧ n ∉ lines
  | _ => True

/-- No line waits, and the session is in the run of the machine, or behind it. -/
structure Continues (m₀ : Machine) (s : Session) : Prop where
  machine : m₀.Follows s.machine
  queue : s.queue = []

variable {m₀ m : Machine} {s : Session} {p : Program} {output : Array Display.Command}
  {budget : Nat} {calls : List Call}

section Work

variable {queue : List Line} (ignores : m₀.IgnoresProgram) (idle : queue = [])
include ignores idle

theorem continues_work (h : m₀.Follows m) :
    Continues m₀ (work budget queue m output).session := by
  fun_induction work budget queue m output with
  | case1 queue m output running => exact ⟨h, idle⟩
  | case2 queue m output running budget m' commands step ih =>
      have after := h.step ignores
      rw [step] at after
      exact ih idle after
  | case3 budget m output direct => exact ⟨h, rfl⟩
  | case4 => cases idle

theorem follows_of_mem_workDeeds (h : m₀.Follows m) {m' : Machine}
    (mem : .step m' ∈ workDeeds budget queue m) : m₀.Follows m' := by
  fun_induction workDeeds budget queue m with
  | case1 | case3 => cases mem
  | case2 queue m running budget ih =>
      rcases List.mem_cons.mp mem with same | later
      · cases same
        exact h
      · exact ih idle (h.step ignores) later
  | case4 => cases idle

/-- Work in one run over two programs is the same. -/
theorem work_withProgram (h : m₀.Follows m) (h' : m₀.Follows (m.withProgram p)) :
    ∃ p', work budget queue (m.withProgram p) output =
      (work budget queue m output).withProgram p' := by
  fun_induction work budget queue m output generalizing p with
  | case1 queue m output running => exact ⟨p, work_spent running⟩
  | case2 queue m output running budget m' commands step ih =>
      have same (n : Nat) (mem : n ∈ m.snapshot) : p.find? n = m.program.find? n :=
        (h'.lines n mem).trans (h.lines n mem).symm
      obtain ⟨p', stepped⟩ := Machine.step_withProgram (h.ignoresProgram ignores) same
      have after := h.step ignores
      have after' := h'.step ignores
      have running' : (m.withProgram p).isRunning = true := running
      rw [stepped] at after'
      rw [work_step budget running', stepped]
      rw [step] at after after' ⊢
      exact ih idle after after'
  | case3 budget m output direct => exact ⟨p, work_done budget (Bool.eq_false_iff.mpr direct)⟩
  | case4 => cases idle

end Work

namespace Continues

variable (h : Continues m₀ s)
include h

theorem resumed : m₀.Follows s.resumed := by
  rw [Session.resumed]
  split
  · exact h.machine.halt
  · exact h.machine

/-- Every call that spares the lines of the run goes on with it. -/
theorem call (ignores : m₀.IgnoresProgram) {c : Call} (spares : c.Spares m₀.snapshot) :
    Continues m₀ (s.call c) := by
  cases c with
  | enter t =>
      obtain ⟨n, statement, taken, spared⟩ := spares
      rw [Session.call, enter_eq, taken]
      exact ⟨h.machine.edit spared statement, h.queue⟩
  | interrupt => exact ⟨h.machine, h.queue⟩
  | execute budget =>
      rw [Session.call, execute_eq_work]
      exact continues_work ignores h.queue h.resumed

/-- The steps during the calls are steps of the run. -/
theorem follows_of_mem_history (ignores : m₀.IgnoresProgram)
    (spares : ∀ c ∈ calls, c.Spares m₀.snapshot) (mem : .step m ∈ s.history calls) :
    m₀.Follows m := by
  induction calls generalizing s with
  | nil => cases mem
  | cons c calls ih =>
      have next := h.call ignores (spares c List.mem_cons_self)
      have later := fun d hd => spares d (List.mem_cons_of_mem c hd)
      cases c with
      | enter t => exact ih next later mem
      | interrupt => exact ih next later mem
      | execute budget =>
          rcases List.mem_append.mp mem with now | mem
          · rcases List.mem_append.mp now with before | working
            · simp [preliminaries] at before
            · exact follows_of_mem_workDeeds ignores h.queue h.resumed working
          · exact ih next later mem

end Continues

theorem output_preliminaries_withProgram (s : Session) (p : Program) :
    (s.withProgram p).preliminaries.flatMap Deed.output =
      s.preliminaries.flatMap Deed.output := by
  have reports : (s.withProgram p).machine.interrupt.2 = s.machine.interrupt.2 :=
    s.machine.interrupt_withProgram_snd p
  have broken : ((s.withProgram p).interrupted && (s.withProgram p).machine.isRunning) =
      (s.interrupted && s.machine.isRunning) := rfl
  rw [preliminaries, preliminaries, List.flatMap_append, List.flatMap_append, broken]
  split
  · rw [List.flatMap_singleton, List.flatMap_singleton, Deed.output, reports]
    rfl
  · rfl

/-- Two sessions in the same run do the same in a slice. -/
theorem execute_withProgram (ignores : m₀.IgnoresProgram) (h : Continues m₀ s)
    (h' : Continues m₀ (s.withProgram p)) (budget : Nat) :
    ∃ p', (s.withProgram p).execute budget = (s.execute budget).withProgram p' := by
  have resumed : (s.withProgram p).resumed = s.resumed.withProgram p := by
    rw [Session.resumed, Session.resumed, withProgram]
    split <;> rfl
  rw [execute_eq_work, execute_eq_work s, output_preliminaries_withProgram, resumed]
  exact work_withProgram ignores h.queue h.resumed (resumed ▸ h'.resumed)

/-- Two sessions in the same run go on alike, if the edits to one of them spare its lines. -/
theorem slices_withProgram (ignores : m₀.IgnoresProgram) (h : Continues m₀ s)
    (h' : Continues m₀ (s.withProgram p)) (spares : ∀ c ∈ calls, c.Spares m₀.snapshot) :
    (∃ p', (s.withProgram p).after calls =
      (s.after (calls.filter (·.entered?.isNone))).withProgram p') ∧
    ((s.withProgram p).slices calls).map (·.withProgram .empty) =
      (s.slices (calls.filter (·.entered?.isNone))).map (·.withProgram .empty) := by
  induction calls generalizing s p with
  | nil => exact ⟨⟨p, rfl⟩, rfl⟩
  | cons c calls ih =>
      have first := spares c List.mem_cons_self
      have later := fun d hd => spares d (List.mem_cons_of_mem c hd)
      have next' := h'.call ignores first
      cases c with
      | enter t =>
          obtain ⟨n, statement, taken, -⟩ := first
          have edited : ((s.withProgram p).enter t).1 = s.withProgram (p.edit n statement) := by
            rw [enter_eq, taken]
            rfl
          rw [after_cons, slices, call, edited]
          exact ih h (edited ▸ next') later
      | interrupt => exact ih (h.call ignores first) next' later
      | execute budget =>
          obtain ⟨p', same⟩ := execute_withProgram ignores h h' budget
          rw [call, same] at next'
          obtain ⟨after, rest⟩ := ih (h.call ignores first) next' later
          rw [after_cons, slices, call, same]
          exact ⟨after, congrArg (_ :: ·) rest⟩

/-- Edits during a run do not disturb it, as long as they spare its lines and none of these
lists or starts the program.

Whatever is edited in between, the slices command the same and leave the same behind as
without the edits, but for the listing. A loop that goes around leads to the place that it
has kept in the lines of the run, and a loop that the run has opened has kept the place
behind its own line. -/
theorem edits_do_not_disturb {r : Run} (running : s.machine.run = some r) (idle : s.queue = [])
    (ignores : s.machine.IgnoresProgram) (spares : ∀ c ∈ calls, c.Spares r.lines) :
    let unedited := calls.filter (·.entered?.isNone)
    (∃ p, s.after calls = (s.after unedited).withProgram p) ∧
    (s.slices calls).map (·.withProgram .empty) =
      (s.slices unedited).map (·.withProgram .empty) ∧
    ∀ m loop, .step m ∈ s.history calls → m.GoesAround loop →
      m.step.1.snapshot = r.lines ∧ m.step.1.counter = loop.resume ∧
        (loop ∈ s.machine.loops.entries ∨ s.machine.Anchors loop) := by
  have snapshot : s.machine.snapshot = r.lines := by simp [Machine.snapshot, running]
  have continues : Continues s.machine s := ⟨.refl s.machine, idle⟩
  rw [← snapshot] at spares ⊢
  obtain ⟨after, slices⟩ :=
    slices_withProgram (p := s.machine.program) ignores continues continues spares
  refine ⟨after, slices, ?_⟩
  intro m loop mem around
  have follows := continues.follows_of_mem_history ignores spares mem
  obtain ⟨kept, resumed⟩ := around.step
  exact ⟨kept.trans (follows.snapshot.resolve_left around.snapshot_ne_empty), resumed,
    follows.loops loop around.mem⟩

/-- A program that counts, about to make its first step. -/
def counting : Session :=
  ((initial.enterAll
    ["10 FOR I=1 TO 3".toList, "20 PRINT I".toList, "30 NEXT I".toList,
      "RUN".toList]).execute 0).session

/-- The program that counts after two steps, when lines are edited behind its back. -/
def countingEdited : Session :=
  counting.after [.execute 2, .enter "15 PRINT 0".toList, .enter "25".toList]

private theorem countingEdited_goesAround :
    countingEdited.machine.GoesAround { name := ['I'], limit := 3, step := 1, resume := 1 } :=
  ⟨⟨30, "NEXT I".toList⟩, .next (some ['I']), some ['I'], .empty, 2, by decide +kernel, by cbv,
    rfl, by decide +kernel, by decide +kernel, .inl (by decide +kernel)⟩

theorem edits_do_not_disturb_counting :
    counting.machine.run = some ⟨#[10, 20, 30], 0⟩ ∧ counting.queue = [] ∧
      counting.machine.IgnoresProgram ∧
      (counting.slices [.execute 2, .enter "15 PRINT 0".toList, .enter "25".toList,
        .execute 9]).map (·.withProgram .empty) =
          (counting.slices [.execute 2, .execute 9]).map (·.withProgram .empty) ∧
      countingEdited.machine.step.1.snapshot = #[10, 20, 30] ∧
      countingEdited.machine.step.1.counter = 1 ∧
      counting.machine.Anchors { name := ['I'], limit := 3, step := 1, resume := 1 } := by
  have running : counting.machine.run = some ⟨#[10, 20, 30], 0⟩ := by decide +kernel
  have idle : counting.queue = [] := by decide +kernel
  have ignores : counting.machine.IgnoresProgram := by decide +kernel
  have spares : ∀ c ∈ [Call.execute 2, .enter "15 PRINT 0".toList, .enter "25".toList,
      .execute 9], c.Spares #[10, 20, 30] := by
    intro c hc
    fin_cases hc
    · trivial
    · exact ⟨15, "PRINT 0".toList, by decide, by simp⟩
    · exact ⟨25, [], by decide, by simp⟩
    · trivial
  obtain ⟨-, slices, around⟩ := edits_do_not_disturb running idle ignores spares
  have step : .step countingEdited.machine ∈ counting.history
      [.execute 2, .enter "15 PRINT 0".toList, .enter "25".toList, .execute 9] := by
    have resumed : countingEdited.resumed = countingEdited.machine :=
      if_neg (by decide +kernel)
    have running : countingEdited.machine.isRunning = true := by decide +kernel
    have first : .step countingEdited.machine ∈ countingEdited.deeds 9 := by
      rw [deeds, resumed, workDeeds_step 8 running]
      exact List.mem_append_right _ List.mem_cons_self
    exact List.mem_append_right _ (List.mem_append_left _ first)
  obtain ⟨snapshot, counter, opened⟩ := around _ _ step countingEdited_goesAround
  have fresh : counting.machine.loops.entries = [] := by decide +kernel
  refine ⟨running, idle, ignores, slices, snapshot, counter, opened.resolve_left ?_⟩
  simp [fresh]

end Session

end LineBasic
