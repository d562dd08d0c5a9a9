import LineBasic.Proofs.Session.Calls
import LineBasic.Proofs.Session.Intake

/-!
# Delivery of input

A session takes input at any time, also while a program runs, and a slice works it off as
far as its budget lasts. Direct lines wait in a queue, and the errors of refused lines are
put aside. From each of the two a slice takes only what stands first and leaves the rest
in order, and entering a line only adds behind what is there. So what was taken and what
still waits is, at any time, all that was entered.

Main statement: `Session.input_is_delivered`.
-/

namespace LineBasic

namespace Session

variable {s : Session}

theorem queue_enter (s : Session) (t : Text) :
    (s.enter t).1.queue = s.queue ++ (Line.intake t).line?.toList := by
  rw [enter_eq]
  cases Line.intake t with
  | direct statement => rfl
  | _ => exact (List.append_nil s.queue).symm

theorem rejected_enter (s : Session) (t : Text) :
    (s.enter t).1.rejected = s.rejected ++ (Line.intake t).error?.toList := by
  rw [enter_eq]
  cases Line.intake t with
  | refused e => rfl
  | _ => exact (List.append_nil s.rejected).symm

/-- The lines that were executed and then those that still wait are the direct lines that
waited at first and then those that were entered. -/
theorem executed_history (s : Session) (calls : List Call) :
    executed (s.history calls) ++ (s.after calls).queue =
      s.queue ++ (calls.filterMap Call.entered?).filterMap fun t => (Line.intake t).line? := by
  induction calls generalizing s with
  | nil => exact (List.append_nil s.queue).symm
  | cons c calls ih =>
      cases c with
      | enter t =>
          rw [history, after_cons, call, ih, queue_enter, List.append_assoc]
          cases line : (Line.intake t).line? <;> simp [Call.entered?, line]
      | interrupt => exact ih s.interrupt
      | execute budget =>
          rw [history, executed_append, List.append_assoc, after_cons, call, ih,
            ← List.append_assoc, executed_deeds]
          rfl

/-- The errors that were reported and then those that are put aside are those that were
put aside at first and then those of the lines that were entered. -/
theorem reported_history (s : Session) (calls : List Call) :
    reported (s.history calls) ++ (s.after calls).rejected =
      s.rejected ++ (calls.filterMap Call.entered?).filterMap fun t => (Line.intake t).error? := by
  induction calls generalizing s with
  | nil => exact (List.append_nil s.rejected).symm
  | cons c calls ih =>
      cases c with
      | enter t =>
          rw [history, after_cons, call, ih, rejected_enter, List.append_assoc]
          cases error : (Line.intake t).error? <;> simp [Call.entered?, error]
      | interrupt => exact ih s.interrupt
      | execute budget =>
          rw [history, reported_append, List.append_assoc, after_cons, call, ih, reported_deeds,
            (execute_session s budget).1]
          rfl

/-- A slice reports all errors that were put aside before it does anything else. -/
theorem exists_deeds_eq (s : Session) (budget : Nat) :
    ∃ rest, s.deeds budget = s.rejected.map .rejection ++ rest ∧ reported rest = [] := by
  have whole := reported_deeds s budget
  rw [deeds, preliminaries, List.append_assoc] at whole ⊢
  refine ⟨_, rfl, ?_⟩
  rw [reported_append, reported, List.filterMap_map] at whole
  simpa [Deed.rejection?, Function.comp_def] using whole

/-- A line is refused for its length or for its number, and so it is reported. -/
theorem characters_of_refused {t : Text} {e : Error} (refused : Line.intake t = .refused e) :
    e.characters =
      (if 255 < t.byteLength then "?LINE BUFFER OVERFLOW\n".toList
        else "?SYNTAX ERROR; INVALID LINE NUMBER\n".toList).map .character := by
  rw [Line.intake, Line.maxBytes] at refused
  split at refused
  · next long =>
    obtain rfl := Intake.refused.inj refused
    rw [if_pos long]
    decide
  · next short =>
    rw [if_neg short]
    split at refused
    · cases refused
    split at refused
    · cases refused
    split at refused
    · obtain rfl := Intake.refused.inj refused
      decide
    · cases refused

/-- No input is lost, done twice or taken out of its turn, whatever calls the host makes of
a new session.

The direct lines that were executed and then those that wait are all that were entered.
The errors that were reported and then those that are put aside are those of all lines
that were refused. All that was written comes from the deeds, and the deed that reports a
refused line writes what is wrong with it. A slice does what its deeds say, the reports of
refused lines first. A line that is refused does nothing but to be put aside. -/
theorem input_is_delivered (calls : List Call) :
    let s := initial.after calls
    let typed := (calls.filterMap Call.entered?).map Line.intake
    executed (initial.history calls) ++ s.queue = typed.filterMap Intake.line? ∧
      reported (initial.history calls) ++ s.rejected = typed.filterMap Intake.error? ∧
      (initial.slices calls).flatMap (·.output.toList) =
        (initial.history calls).flatMap Deed.output ∧
      (∀ e, (Deed.rejection e).output = e.characters) ∧
      (∀ budget,
        replay s.machine (s.deeds budget) =
          ((s.execute budget).session.machine, (s.execute budget).output.toList) ∧
        ∃ rest, s.deeds budget = s.rejected.map .rejection ++ rest ∧ reported rest = [] ∧
          (s.execute budget).output.toList =
            s.rejected.flatMap Error.characters ++ rest.flatMap Deed.output) ∧
      ∀ t e, Line.intake t = .refused e →
        s.enter t = ({ s with rejected := s.rejected ++ [e] }, false) ∧
          e.characters =
            (if 255 < t.byteLength then "?LINE BUFFER OVERFLOW\n".toList
              else "?SYNTAX ERROR; INVALID LINE NUMBER\n".toList).map .character := by
  intro s typed
  refine ⟨?_, ?_, output_slices initial calls, fun _ => Deed.output_of_error? rfl, ?_, ?_⟩
  · rw [executed_history, List.filterMap_map]
    rfl
  · rw [reported_history, List.filterMap_map]
    rfl
  · intro budget
    obtain ⟨rest, order, others⟩ := exists_deeds_eq s budget
    refine ⟨replay_deeds s budget, rest, order, others, ?_⟩
    rw [output_execute, order, List.flatMap_append, List.flatMap_map,
      ← Machine.report_eq_characters]
    rfl
  · intro t e refused
    refine ⟨?_, characters_of_refused refused⟩
    rw [enter_eq, refused]

/-- A program is started and interrupted, and a direct line stops it before the break is
seen. Two lines are refused, one before the program ran and one while it did. -/
def disturbed : List Call :=
  [.enter "70000 X".toList, .enter "10 PRINT 1".toList, .enter "RUN".toList,
    .enter "PRINT 3".toList, .execute 0, .interrupt, .enter "NEW".toList, .enter " 99999".toList]

theorem input_is_delivered_disturbed :
    let s := initial.after disturbed
    executed (initial.history disturbed) = [⟨none, "RUN".toList⟩] ∧
      s.queue = [⟨none, "PRINT 3".toList⟩, ⟨none, "NEW".toList⟩] ∧
      reported (initial.history disturbed) = s.rejected ∧
      (∃ later, (s.execute 7).output.toList =
        "?SYNTAX ERROR; INVALID LINE NUMBER\n".toList.map .character ++ later) ∧
      s.enter "65530".toList =
        ({ s with rejected := s.rejected ++
          [.because .syntaxError "INVALID LINE NUMBER"] }, false) := by
  intro s
  obtain ⟨lines, errors, -, -, slices, refused⟩ := input_is_delivered disturbed
  have waiting : s.queue = [⟨none, "PRINT 3".toList⟩, ⟨none, "NEW".toList⟩] := by decide +kernel
  have aside : s.rejected = [.because .syntaxError "INVALID LINE NUMBER"] := by decide +kernel
  refine ⟨?_, waiting, ?_, ?_, (refused _ _ (by decide +kernel)).1⟩
  · have all : ((disturbed.filterMap Call.entered?).map Line.intake).filterMap Intake.line? =
        [⟨none, "RUN".toList⟩] ++ s.queue := by
      rw [waiting]
      decide +kernel
    exact List.append_cancel_right (lines.trans all)
  · have all : ((disturbed.filterMap Call.entered?).map Line.intake).filterMap Intake.error? =
        s.rejected ++ s.rejected := by
      rw [aside]
      decide +kernel
    exact List.append_cancel_right (errors.trans all)
  · obtain ⟨-, rest, -, -, written⟩ := slices 7
    have characters : s.rejected.flatMap Error.characters =
        "?SYNTAX ERROR; INVALID LINE NUMBER\n".toList.map .character := by
      rw [aside]
      decide
    exact ⟨_, characters ▸ written⟩

end Session

end LineBasic
