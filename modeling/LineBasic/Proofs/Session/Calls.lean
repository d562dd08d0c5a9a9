import LineBasic.Proofs.Session.Slicing

/-!
# Sequences of calls

A host enters lines, requests breaks and executes slices, in any order and as often as it
likes. `after` is the session that a sequence of calls leads to, `slices` are the slices
that were executed on the way, and `history` lists everything that these did.

A slice takes all that was put aside. It executes the queued lines from the first one on
and leaves the others in the queue, so nothing that was entered gets lost in it
(`executed_deeds`, `reported_deeds`). Its deeds can be replayed: done in order from the
machine that the slice began with, they lead to the machine that it left and command what
it commanded (`replay_deeds`).
-/

namespace LineBasic

namespace Session

/-- One call of the host. -/
inductive Call where
  | enter (t : Text)
  | interrupt
  | execute (budget : Nat)
  deriving DecidableEq, Repr

namespace Call

def isInterrupt : Call → Bool
  | interrupt => true
  | _ => false

def isExecute : Call → Bool
  | execute _ => true
  | _ => false

/-- The text that is entered by the call. -/
def entered? : Call → Option Text
  | enter t => some t
  | _ => none

end Call

/-- The session after one call. -/
def call (s : Session) : Call → Session
  | .enter t => (s.enter t).1
  | .interrupt => s.interrupt
  | .execute budget => (s.execute budget).session

/-- The session after a sequence of calls. -/
def after (s : Session) (calls : List Call) : Session := calls.foldl call s

/-- The slices that are executed during the calls. -/
def slices (s : Session) : List Call → List Slice
  | [] => []
  | .enter t :: calls => slices (s.enter t).1 calls
  | .interrupt :: calls => slices s.interrupt calls
  | .execute budget :: calls => s.execute budget :: slices (s.execute budget).session calls

/-- What is done during the calls, in order. -/
def history (s : Session) : List Call → List Deed
  | [] => []
  | .enter t :: calls => history (s.enter t).1 calls
  | .interrupt :: calls => history s.interrupt calls
  | .execute budget :: calls => s.deeds budget ++ history (s.execute budget).session calls

namespace Deed

/-- The direct line that is executed. -/
def line? : Deed → Option Line
  | direct l _ => some l
  | _ => none

/-- The error of the rejected line that is reported. -/
def rejection? : Deed → Option Error
  | rejection e => some e
  | _ => none

/-- What the deed does to a machine, and what it commands then. -/
def act (m : Machine) : Deed → Machine × List Display.Command
  | rejection e => (m, Machine.report e)
  | interruption _ => m.interrupt
  | step _ => m.step
  | direct l _ => m.execute l

end Deed

/-- The direct lines among the deeds, in the order of their execution. -/
def executed (deeds : List Deed) : List Line := deeds.filterMap Deed.line?

/-- The errors of rejected lines among the deeds, in the order of their reports. -/
def reported (deeds : List Deed) : List Error := deeds.filterMap Deed.rejection?

/-- Deeds done one after the other, from a given machine on. -/
def replay (m : Machine) : List Deed → Machine × List Display.Command
  | [] => (m, [])
  | d :: deeds =>
    let (m, commands) := d.act m
    let (m, later) := replay m deeds
    (m, commands ++ later)

variable {s : Session} {calls : List Call}

@[simp] theorem after_cons (s : Session) (c : Call) (calls : List Call) :
    s.after (c :: calls) = (s.call c).after calls := rfl

@[simp] theorem executed_append (deeds more : List Deed) :
    executed (deeds ++ more) = executed deeds ++ executed more :=
  List.filterMap_append

@[simp] theorem reported_append (deeds more : List Deed) :
    reported (deeds ++ more) = reported deeds ++ reported more :=
  List.filterMap_append

@[simp] theorem replay_append (m : Machine) (deeds more : List Deed) :
    replay m (deeds ++ more) =
      ((replay (replay m deeds).1 more).1,
        (replay m deeds).2 ++ (replay (replay m deeds).1 more).2) := by
  induction deeds generalizing m with
  | nil => rfl
  | cons d deeds ih => simp only [List.cons_append, replay, ih, List.append_assoc]

section Work

variable (budget : Nat) (queue : List Line) (m : Machine) (output : Array Display.Command)

/-- Working leaves nothing put aside and no request for a break. -/
theorem work_session : (work budget queue m output).session.rejected = [] ∧
    (work budget queue m output).session.interrupted = false := by
  fun_induction work budget queue m output with
  | case1 | case3 => exact ⟨rfl, rfl⟩
  | case2 queue m output running budget m' commands step ih => exact ih
  | case4 budget m output direct l queue m' commands executed ih => exact ih

/-- The lines that are executed and then those that still wait are those of the queue. -/
theorem executed_workDeeds :
    executed (workDeeds budget queue m) ++ (work budget queue m output).session.queue = queue := by
  fun_induction work budget queue m output with
  | case1 queue m output running =>
      rw [workDeeds_spent running]
      rfl
  | case2 queue m output running budget m' commands step ih =>
      rw [workDeeds_step budget running, step]
      exact ih
  | case3 budget m output direct =>
      rw [workDeeds_done budget (Bool.eq_false_iff.mpr direct)]
      rfl
  | case4 budget m output direct l queue m' commands executed ih =>
      rw [workDeeds_direct budget l (Bool.eq_false_iff.mpr direct), executed]
      exact congrArg (l :: ·) ih

theorem reported_workDeeds : reported (workDeeds budget queue m) = [] := by
  fun_induction workDeeds budget queue m with
  | case1 | case3 => rfl
  | case2 queue m running budget ih => exact ih
  | case4 budget m direct l queue ih => exact ih

theorem replay_workDeeds :
    replay m (workDeeds budget queue m) =
      ((work budget queue m output).session.machine,
        (workDeeds budget queue m).flatMap Deed.output) := by
  fun_induction work budget queue m output with
  | case1 queue m output running =>
      rw [workDeeds_spent running]
      rfl
  | case2 queue m output running budget m' commands step ih =>
      rw [workDeeds_step budget running, step]
      simp only [replay, Deed.act, step, ih, List.flatMap_cons, Deed.output]
  | case3 budget m output direct =>
      rw [workDeeds_done budget (Bool.eq_false_iff.mpr direct)]
      rfl
  | case4 budget m output direct l queue m' commands executed ih =>
      rw [workDeeds_direct budget l (Bool.eq_false_iff.mpr direct), executed]
      simp only [replay, Deed.act, executed, ih, List.flatMap_cons, Deed.output]

end Work

/-- Before it works, a slice reports what was put aside and does nothing else but to break. -/
theorem replay_preliminaries (s : Session) :
    replay s.machine s.preliminaries = (s.resumed, s.preliminaries.flatMap Deed.output) := by
  have reports (m : Machine) (errors : List Error) :
      replay m (errors.map .rejection) = (m, (errors.map Deed.rejection).flatMap Deed.output) := by
    induction errors with
    | nil => rfl
    | cons e errors ih =>
        simp only [List.map_cons, replay, Deed.act, ih, List.flatMap_cons, Deed.output]
  rw [preliminaries, replay_append, reports, List.flatMap_append, resumed]
  cases running : s.machine.run with
  | none => simp [replay, Machine.isRunning, running, Machine.halt_of_run_eq_none running]
  | some r =>
      cases s.interrupted with
      | false => rfl
      | true =>
          simp [replay, Deed.act, Deed.output, Machine.isRunning, running, Machine.interrupt_fst]

/-- The deeds of a slice, done in order, are what the slice does. -/
theorem replay_deeds (s : Session) (budget : Nat) :
    replay s.machine (s.deeds budget) =
      ((s.execute budget).session.machine, (s.execute budget).output.toList) := by
  rw [output_execute, execute_eq_work, deeds, replay_append, replay_preliminaries,
    replay_workDeeds budget s.queue s.resumed (s.preliminaries.flatMap Deed.output).toArray,
    List.flatMap_append]

theorem executed_preliminaries (s : Session) : executed s.preliminaries = [] := by
  rw [preliminaries, executed]
  split <;> simp [Deed.line?, Function.comp_def]

theorem executed_deeds (s : Session) (budget : Nat) :
    executed (s.deeds budget) ++ (s.execute budget).session.queue = s.queue := by
  rw [deeds, executed_append, executed_preliminaries, List.nil_append, execute_eq_work]
  exact executed_workDeeds budget s.queue s.resumed _

theorem reported_deeds (s : Session) (budget : Nat) : reported (s.deeds budget) = s.rejected := by
  rw [deeds, reported_append, reported_workDeeds, List.append_nil, preliminaries, reported]
  split <;> simp [Deed.rejection?, Function.comp_def]

/-- A slice leaves nothing put aside and no request for a break. -/
theorem execute_session (s : Session) (budget : Nat) :
    (s.execute budget).session.rejected = [] ∧ (s.execute budget).session.interrupted = false := by
  rw [execute_eq_work]
  exact work_session budget s.queue s.resumed _

/-- Everything that slices command comes from their deeds. -/
theorem output_slices (s : Session) (calls : List Call) :
    (s.slices calls).flatMap (·.output.toList) = (s.history calls).flatMap Deed.output := by
  induction calls generalizing s with
  | nil => rfl
  | cons c calls ih =>
      cases c with
      | enter t => exact ih (s.enter t).1
      | interrupt => exact ih s.interrupt
      | execute budget =>
          rw [slices, history, List.flatMap_cons, List.flatMap_append, output_execute, ih]

end Session

end LineBasic
