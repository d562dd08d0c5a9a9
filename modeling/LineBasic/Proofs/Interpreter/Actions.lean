import LineBasic.Proofs.Failing
import LineBasic.Proofs.Interpreter.Basic
import LineBasic.Proofs.Machine.Soundness

/-!
# Actions of the interpreter

An interpreter holds a session. An action that only reads comes to what the computation of
the machine comes to (`Action.Reads`), and an action that performs something leaves the
machine that performing leaves and has called for what it commands (`Action.Mirrors`). Both
compose along the steps of an action. So a statement does to an interpreter what it does to
the machine of its session, and when it fails it has called for nothing, since all its calls
stand behind all that can fail (`Action.perform_mirrors`).
-/

namespace LineBasic

open Display (Command)

namespace Listing

/-- The listing that holds a program. -/
def ofProgram (p : Program) : Listing := ⟨p.lines.map fun l => (l.number, l.toLine)⟩

variable (p : Program) (n : Nat)

theorem isEmpty_ofProgram : (ofProgram p).isEmpty = p.isEmpty := List.isEmpty_map

theorem lineNumbers_ofProgram : (ofProgram p).lineNumbers = p.numbers := List.map_map

theorem lines_ofProgram : (ofProgram p).lines = p.lines.map ProgramLine.toLine := List.map_map

theorem get?_ofProgram : (ofProgram p).get? n = (p.find? n).map ProgramLine.toLine := by
  rw [get?, ofProgram, List.find?_map, Option.map_map]
  rfl

theorem remove_ofProgram : (ofProgram p).remove n = ofProgram (p.remove n) := by
  rw [remove, ofProgram, List.filter_map]
  rfl

/-- A line is put where the program puts it. -/
theorem put_map (l : ProgramLine) (lines : List ProgramLine) :
    put l.number l.toLine (lines.map fun l => (l.number, l.toLine)) =
      (Program.insertInto l lines).map fun l => (l.number, l.toLine) := by
  induction lines with
  | nil => rfl
  | cons x lines ih =>
      rw [List.map_cons, put, Program.insertInto]
      split
      · rfl
      · split
        · rfl
        · rw [ih, List.map_cons]

theorem insert_ofProgram (l : ProgramLine) :
    (ofProgram p).insert l.toLine = ofProgram (p.insert l) :=
  congrArg Listing.mk (put_map l p.lines)

end Listing

namespace Stack

variable {α : Type} {p : α → Bool} {s below : Stack α} {x : α}

theorem position?_of_newest? (h : s.newest? p = some (x, below)) :
    s.position? p = some below.size := by
  rw [position?, h]
  rfl

/-- What stands at the place of a match. -/
theorem get?_size_of_newest? (h : s.newest? p = some (x, below)) : s.get? below.size = some x := by
  obtain ⟨-, above, entries, -⟩ := newest?_eq_some_iff.mp h
  rw [get?, entries, size, ← List.length_reverse]
  simp

/-- Giving up all above a place below which nothing but these entries stands. -/
theorem truncate_append (above below : List α) :
    truncate ⟨above ++ below⟩ below.length = ⟨below⟩ := by
  simp [truncate, size]

theorem truncate_size_of_newest? (h : s.newest? p = some (x, below)) :
    s.truncate below.size = below := by
  obtain ⟨-, above, entries, -⟩ := newest?_eq_some_iff.mp h
  obtain ⟨entries'⟩ := s
  obtain rfl : entries' = (above ++ [x]) ++ below.entries := by simpa using entries
  exact truncate_append (above ++ [x]) below.entries

theorem truncate_size_add_one_of_newest? (h : s.newest? p = some (x, below)) :
    s.truncate (below.size + 1) = ⟨x :: below.entries⟩ := by
  obtain ⟨-, above, entries, -⟩ := newest?_eq_some_iff.mp h
  obtain ⟨entries'⟩ := s
  obtain rfl : entries' = above ++ x :: below.entries := entries
  exact truncate_append above (x :: below.entries)

end Stack

theorem Machine.isRunning_of_run {m : Machine} {r : Run} (run : m.run = some r) :
    m.isRunning = true :=
  congrArg Option.isSome run

namespace Interpreter

/-- The interpreter that holds a session. -/
def ofSession (s : Session) : Interpreter where
  listing := .ofProgram s.machine.program
  vars := s.machine.vars
  loops := s.machine.loops
  state := if s.machine.isRunning then .running else .direct
  lines := s.machine.snapshot
  counter := s.machine.counter
  queue := s.queue
  pending := s.rejected
  interrupted := s.interrupted

variable {s : Session} {m : Machine}

theorem listing_ofSession (s : Session) :
    (ofSession s).listing = .ofProgram s.machine.program := rfl

theorem loops_ofSession (s : Session) : (ofSession s).loops = s.machine.loops := rfl

theorem lines_ofSession {r : Run} (running : s.machine.run = some r) :
    (ofSession s).lines = r.lines := by
  rw [ofSession, Machine.snapshot, running]
  rfl

theorem counter_ofSession {r : Run} (running : s.machine.run = some r) :
    (ofSession s).counter = r.next := by
  rw [ofSession, Machine.counter, running]
  rfl

theorem stop_ofSession (s : Session) :
    (ofSession s).stop = ofSession { s with machine := s.machine.halt } := rfl

theorem state_of_isRunning (h : s.machine.isRunning = true) : (ofSession s).state = .running := by
  rw [ofSession, if_pos h]

theorem state_of_run_eq_none (h : s.machine.run = none) : (ofSession s).state = .direct := by
  rw [ofSession, Machine.isRunning, h]
  rfl

theorem state_eq_running_iff : (ofSession s).state = .running ↔ s.machine.isRunning = true := by
  rw [ofSession]
  split <;> simp [*]

/-- A program that runs goes on at another place. -/
theorem resume_ofSession {r : Run} (running : s.machine.run = some r) (next : Nat) :
    { ofSession s with counter := next } =
      ofSession { s with machine := { s.machine with run := some { r with next } } } := by
  rw [ofSession, Machine.isRunning, Machine.snapshot, running]
  rfl

/-- The counter of a program that runs moves on. -/
theorem advance_ofSession {r : Run} (running : s.machine.run = some r) :
    { ofSession s with counter := (ofSession s).counter + 1 } =
      ofSession { s with machine := s.machine.advance } := by
  rw [counter_ofSession running, resume_ofSession running, Machine.advance, running]
  rfl

/-- The line that comes next in a program that runs. -/
theorem place_ofSession {r : Run} (running : s.machine.run = some r) :
    (ofSession s).lines[(ofSession s).counter]? = r.lines[r.next]? := by
  rw [lines_ofSession running, counter_ofSession running]

theorem run_eq_none_of_state_eq_direct (h : (ofSession s).state = .direct) :
    s.machine.run = none := by
  rw [← Machine.isRunning_eq_false_iff, Bool.eq_false_iff, ne_eq, ← state_eq_running_iff, h]
  decide

/-- The program and the run decide where the interpreter is. -/
theorem ofSession_of_same {m m' : Machine} (program : m'.program = m.program)
    (run : m'.run = m.run) :
    let before := ofSession { s with machine := m }
    let after := ofSession { s with machine := m' }
    after.listing = before.listing ∧ after.state = before.state ∧ after.lines = before.lines ∧
      after.counter = before.counter :=
  ⟨congrArg Listing.ofProgram program,
    congrArg (fun run : Option Run => if run.isSome then State.running else .direct) run,
    congrArg (fun run : Option Run => (run.map Run.lines).getD #[]) run,
    congrArg (fun run : Option Run => (run.map Run.next).getD 0) run⟩

/-- An interpreter at rest need not be stopped. -/
theorem stop_of_running (s : Session) :
    (if (ofSession s).state = .running then (ofSession s).stop else ofSession s) =
      ofSession { s with machine := s.machine.halt } := by
  split
  · rfl
  · next direct =>
    rw [state_eq_running_iff, Bool.not_eq_true, Machine.isRunning_eq_false_iff] at direct
    rw [Machine.halt_of_run_eq_none direct]

/-- Entering a line does to the interpreter what it does to the session. -/
theorem enter_ofSession (s : Session) (t : Text) :
    (ofSession s).enter t = (ofSession (s.enter t).1, (s.enter t).2) := by
  rw [enter, Session.enter]
  split
  · rfl
  · cases Line.read t with
    | error e => rfl
    | ok line =>
        obtain ⟨number, text⟩ := line
        cases number with
        | none =>
            cases text with
            | nil => rfl
            | cons c text =>
                simp only [Line.isEmpty, List.isEmpty_cons, Bool.false_eq_true, if_false,
                  Session.accept, stop_of_running]
                rfl
        | some n =>
            cases text with
            | nil =>
                have removed := Listing.remove_ofProgram s.machine.program n
                simp only [Line.isEmpty, List.isEmpty_nil, if_true, Session.accept]
                exact congrArg (fun listing => ({ ofSession s with listing }, true)) removed
            | cons c text =>
                have inserted := Listing.insert_ofProgram s.machine.program ⟨n, c :: text⟩
                simp only [Line.isEmpty, List.isEmpty_cons, Bool.false_eq_true, if_false,
                  Session.accept]
                exact congrArg (fun listing => ({ ofSession s with listing }, true)) inserted

namespace Work

theorem write_eq (w : Work) (t : Text) :
    w.write t = { w with calls := w.calls ++ t.map .character } := by
  rw [write]
  induction t generalizing w with
  | nil => simp
  | cons c t ih =>
      rw [List.foldl_cons, ih, send]
      simp

theorem report_eq (w : Work) (e : Error) :
    w.report e =
      { w with calls := w.calls ++ Machine.report e, reports := w.reports ++ [e] } := by
  rw [report, write_eq, write_eq, Machine.report, Error.report, Error.opening]
  split <;> rfl

end Work

namespace Action

variable {α β : Type} {calls : List Command} {reports : List Error}

/-- The loop that is to be closed is the newest match. -/
theorem sought (loops : Stack Loop) (name : Option Text) :
    ((index? loops name).bind fun index => (loops.get? index).map (index, ·)) =
      (loops.newest? fun l => name.all (l.name == ·)).map fun result =>
        (result.2.size, result.1) := by
  cases name with
  | some name =>
      have named : (fun l : Loop => (some name).all (l.name == ·)) = (·.name == name) := rfl
      rw [named, index?]
      cases found : loops.newest? (·.name == name) with
      | none =>
          rw [Stack.position?, found]
          rfl
      | some result =>
          obtain ⟨loop, below⟩ := result
          rw [Stack.position?_of_newest? found, Option.bind_some,
            Stack.get?_size_of_newest? found]
          rfl
  | none =>
      obtain ⟨entries⟩ := loops
      cases entries with
      | nil => rfl
      | cons loop below =>
          have found : Stack.newest? (fun _ => true) ⟨loop :: below⟩ = some (loop, ⟨below⟩) := rfl
          have index : index? ⟨loop :: below⟩ none = some (Stack.size ⟨below⟩) := rfl
          rw [index, Option.bind_some, Stack.get?_size_of_newest? found]
          rfl

/-- An action that only reads, and comes to what a computation comes to. -/
def Reads (s : Session) (a : Action α) (x : Except Error α) : Prop :=
  ∀ calls reports, a ⟨ofSession s, calls, reports⟩ =
    match x with
    | .ok v => .ok v ⟨ofSession s, calls, reports⟩
    | .error e => .error e ⟨ofSession s, calls, reports⟩

namespace Reads

theorem pure (v : α) : Reads s (Pure.pure v) (.ok v) := fun _ _ => rfl

theorem throw (e : Error) : Reads s (MonadExcept.throw e : Action α) (.error e) := fun _ _ => rfl

theorem lift (x : Except Error α) : Reads s (Action.lift x) x := by
  intro calls reports
  cases x <;> rfl

theorem bind {a : Action α} {x : Except Error α} {f : α → Action β} {g : α → Except Error β}
    (first : Reads s a x) (next : ∀ v, Reads s (f v) (g v)) : Reads s (a >>= f) (x >>= g) := by
  intro calls reports
  have here := first calls reports
  cases x with
  | error e =>
      show EStateM.bind a f _ = _
      rw [EStateM.bind, here]
      rfl
  | ok v =>
      show EStateM.bind a f _ = _
      rw [EStateM.bind, here]
      exact next v calls reports

/-- The state of the interpreter decides what is read. -/
theorem ofState {f : Interpreter → Action α} {x : Except Error α}
    (next : Reads s (f (ofSession s)) x) : Reads s (Action.interpreter >>= f) x :=
  fun calls reports => next calls reports

theorem value (e : Expression) : Reads s (Action.value e) (e.eval s.machine.vars) :=
  ofState (lift (e.eval s.machine.vars))

theorem integer (e : Expression) : Reads s (Action.integer e) (s.machine.integer e) :=
  (value e).bind fun v => lift v.toInteger

theorem holds (c : Condition) : Reads s (Action.holds c) (s.machine.holds c) := by
  cases c with
  | compare left relation right =>
      exact (value left).bind fun left => (value right).bind fun right => pure _
  | value e => exact (value e).bind fun v => pure _

theorem printed (part : PrintPart) : Reads s (Action.printed part) (s.machine.printPart part) := by
  cases part with
  | value e => exact (value e).bind fun v => pure _
  | space => exact pure _
  | newline => exact pure _

/-- The parts are put together one by one. -/
theorem printedFrom (parts : List PrintPart) (shown : Text) :
    Reads s (parts.foldlM (fun shown part => return shown ++ (← Action.printed part)) shown)
      (parts.mapM s.machine.printPart >>= fun texts => .ok (shown ++ texts.flatten)) := by
  induction parts generalizing shown with
  | nil =>
      have whole : Reads s (Pure.pure shown) (.ok (shown ++ ([] : List Text).flatten)) := by
        rw [List.flatten_nil, List.append_nil]
        exact pure shown
      exact whole
  | cons part parts ih =>
      have step : Reads s (do return shown ++ (← Action.printed part))
          (s.machine.printPart part >>= fun text => .ok (shown ++ text)) :=
        (printed part).bind fun text => pure _
      have steps := step.bind ih
      rw [List.foldlM_cons, List.mapM_cons]
      convert steps using 1
      cases s.machine.printPart part with
      | error e => rfl
      | ok text =>
          show ((parts.mapM s.machine.printPart >>= fun texts => .ok (text :: texts)) >>= _) =
            (parts.mapM s.machine.printPart >>= _)
          cases parts.mapM s.machine.printPart with
          | error e => rfl
          | ok texts => exact congrArg Except.ok (List.append_assoc shown text texts.flatten).symm

theorem color (e : Expression) : Reads s (Action.color e) (s.machine.color e) := by
  refine (integer e).bind fun n => ?_
  rw [Action.colorIndex, Machine.colorIndex]
  split
  · exact pure _
  · exact throw _

theorem stride (step : Option Expression) :
    Reads s (Action.stride step) (s.machine.stepValue step) := by
  cases step with
  | none => exact pure 1
  | some step => exact integer step

/-- The loop that is to be closed. -/
theorem target_of_some {name : Option Text} {loop : Loop} {below : Stack Loop}
    (found : s.machine.target? name = some (loop, below)) :
    Reads s (Action.target name) (.ok (below.size, loop)) := by
  have place := sought s.machine.loops name
  rw [← Machine.target?, found, Option.map_some] at place
  refine ofState ?_
  dsimp only
  rw [loops_ofSession, place]
  exact pure _

theorem target_of_none {name : Option Text} (missing : s.machine.target? name = none) :
    Reads s (Action.target name) (.error { kind := .nextWithoutFor }) := by
  have place := sought s.machine.loops name
  rw [← Machine.target?, missing, Option.map_none] at place
  refine ofState ?_
  dsimp only
  rw [loops_ofSession, place]
  exact throw _

/-- A closed loop advances before anything of it is stored. -/
theorem following (loop : Loop) : Reads s (Action.following loop) (s.machine.following loop) :=
  ofState (bind (lift (s.machine.vars.fetch loop.name).toInteger) fun _ => lift _)

end Reads

/-- What performing something comes to for an interpreter. -/
def result (s : Session) (calls : List Command) (reports : List Error) :
    Machine × Machine.Outcome → EStateM.Result Error Work Unit
  | (m, .ok commands) => .ok () ⟨ofSession { s with machine := m }, calls ++ commands, reports⟩
  | (m, .error e) => .error e ⟨ofSession { s with machine := m }, calls, reports⟩

/-- An action that leaves the machine that performing something leaves. It calls for what this
commands, and for nothing if it fails. -/
def Mirrors (s : Session) (a : Action Unit) (o : Machine × Machine.Outcome) : Prop :=
  ∀ calls reports, a ⟨ofSession s, calls, reports⟩ = result s calls reports o

namespace Mirrors

variable {a b : Action Unit} {o : Machine × Machine.Outcome} {m m' : Machine} {e : Error}

theorem pure : Mirrors s (Pure.pure ()) (s.machine, .ok []) := by
  intro calls reports
  rw [result, List.append_nil]
  rfl

theorem throw (e : Error) : Mirrors s (MonadExcept.throw e) (s.machine, .error e) :=
  fun _ _ => rfl

theorem send (command : Command) : Mirrors s (Action.send command) (s.machine, .ok [command]) :=
  fun _ _ => rfl

theorem write (t : Text) :
    Mirrors s (Action.write t) (s.machine, .ok (t.map .character)) := by
  intro calls reports
  exact congrArg (EStateM.Result.ok ()) (Work.write_eq _ t)

theorem change {f : Interpreter → Interpreter}
    (h : f (ofSession s) = ofSession { s with machine := m }) :
    Mirrors s (Action.change f) (m, .ok []) := by
  intro calls reports
  rw [result, List.append_nil, ← h]
  rfl

/-- The state of the interpreter decides how the action goes on. -/
theorem ofState {f : Interpreter → Action Unit} (next : Mirrors s (f (ofSession s)) o) :
    Mirrors s (Action.interpreter >>= f) o :=
  fun calls reports => next calls reports

/-- What is read decides how the action goes on. -/
theorem read_ok {α : Type} {a : Action α} {f : α → Action Unit} {v : α}
    (first : Reads s a (.ok v)) (next : Mirrors s (f v) o) : Mirrors s (a >>= f) o := by
  intro calls reports
  show EStateM.bind a f _ = _
  rw [EStateM.bind, first calls reports]
  exact next calls reports

/-- If something cannot be read, that is the end. -/
theorem read_error {α : Type} {a : Action α} {f : α → Action Unit}
    (first : Reads s a (.error e)) : Mirrors s (a >>= f) (s.machine, .error e) := by
  intro calls reports
  show EStateM.bind a f _ = _
  rw [EStateM.bind, first calls reports]
  rfl

theorem read {α : Type} {a : Action α} {x : Except Error α} {f : α → Action Unit}
    (first : Reads s a x) (failed : ∀ e, x = .error e → o = (s.machine, .error e))
    (next : ∀ v, x = .ok v → Mirrors s (f v) o) : Mirrors s (a >>= f) o := by
  cases x with
  | error e =>
      rw [failed e rfl]
      exact read_error first
  | ok v => exact read_ok first (next v rfl)

/-- An action that computes its values before it calls for anything. -/
theorem bind {α : Type} {a : Action α} {x : Except Error α} {f : α → Action Unit}
    {g : α → Machine.Outcome} (first : Reads s a x)
    (next : ∀ v, Mirrors s (f v) (s.machine, g v)) : Mirrors s (a >>= f) (s.machine, x >>= g) := by
  cases x with
  | error e => exact read_error first
  | ok v => exact read_ok first (next v)

/-- Something is changed first, without a call. -/
theorem after (first : Mirrors s a (m, .ok [])) (next : Mirrors { s with machine := m } b o) :
    Mirrors s (a >>= fun _ => b) o := by
  intro calls reports
  show EStateM.bind a _ _ = _
  rw [EStateM.bind, first calls reports, result, List.append_nil]
  exact next calls reports

/-- Calls that follow each other. -/
theorem append {commands more : List Command} (first : Mirrors s a (m, .ok commands))
    (next : Mirrors { s with machine := m } b (m', .ok more)) :
    Mirrors s (a >>= fun _ => b) (m', .ok (commands ++ more)) := by
  intro calls reports
  show EStateM.bind a _ _ = _
  rw [EStateM.bind, first calls reports, result, result, ← List.append_assoc]
  exact next (calls ++ commands) reports

theorem fail {f : Unit → Action Unit} (first : Mirrors s a (m, .error e)) :
    Mirrors s (a >>= f) (m, .error e) := by
  intro calls reports
  show EStateM.bind a f _ = _
  rw [EStateM.bind, first calls reports]
  rfl

/-- Storing a value. -/
theorem store (name : Text) (v : Value) :
    Mirrors s (Action.store name v)
      (match s.machine.vars.store name v with
        | .error e => (s.machine, .error e)
        | .ok vars => ({ s.machine with vars }, .ok [])) := by
  refine ofState (read (.lift (s.machine.vars.store name v)) ?_ ?_)
  · intro e full
    rw [full]
  · intro vars stored
    rw [stored]
    exact change rfl

/-- A position is computed before anything is called for. -/
theorem position (e : Expression) {f : Int32 → Action Unit} {g : Int32 → Machine.Outcome}
    (next : ∀ n, Mirrors s (f n) (s.machine, g n)) :
    Mirrors s (do f (before (← Action.integer e))) (s.machine, s.machine.position e >>= g) := by
  rw [Machine.position]
  refine read (.integer e) (fun e failed => ?_) fun n counts => ?_
  · rw [failed]
    rfl
  · rw [counts]
    exact next (before n)

theorem print (parts : List PrintPart) :
    Mirrors s (Action.print parts) (s.machine, s.machine.commands (.print parts)) :=
  bind (Reads.printedFrom parts []) fun shown => write shown

theorem setColors (text : Expression) (background : Option Expression) :
    Mirrors s (Action.setColors text background)
      (s.machine, s.machine.commands (.color text background)) := by
  cases background with
  | none => exact bind (.color text) fun text => send _
  | some background =>
      exact bind (.color text) fun text => bind (.color background) fun background =>
        append (send _) (send _)

theorem list : Mirrors s Action.list (s.machine, s.machine.commands .list) := by
  have lines (lines : List ProgramLine) :
      Mirrors s ((lines.map ProgramLine.toLine).forM fun l => Action.write (l.display ++ ['\n']))
        (s.machine, .ok (lines.flatMap fun l => Display.write (l.toLine.display ++ ['\n']))) := by
    induction lines with
    | nil => exact pure
    | cons l lines ih => exact append (write _) ih
  refine ofState ?_
  simp only [listing_ofSession, Listing.isEmpty_ofProgram, Listing.lines_ofProgram]
  rw [Machine.commands]
  split
  · exact write _
  · rw [Program.listing, List.flatMap_map]
    exact lines s.machine.program.lines

theorem run : Mirrors s Action.run (s.machine.perform .run) := by
  refine after (m := s.machine.halt) (change (stop_ofSession s)) ?_
  refine after (m := { s.machine with run := none, loops := .empty }) (change rfl) ?_
  refine ofState ?_
  simp only [listing_ofSession, Listing.isEmpty_ofProgram, Listing.lineNumbers_ofProgram]
  rw [Machine.perform]
  cases filled : s.machine.program.isEmpty with
  | true =>
      rw [Machine.start_of_isEmpty filled]
      exact write _
  | false =>
      rw [Machine.start_of_filled filled, if_neg Bool.false_ne_true, if_neg Bool.false_ne_true]
      exact change rfl

theorem erase : Mirrors s Action.erase (s.machine.erase, .ok []) :=
  after (m := s.machine.halt) (change (stop_ofSession s)) (change rfl)

theorem expectRun (running : s.machine.isRunning = true) :
    Mirrors s Action.expectRun (s.machine, .ok []) := by
  refine ofState ?_
  rw [state_of_isRunning running, if_neg (by decide)]
  exact pure

theorem expectRun_of_run_eq_none (stopped : s.machine.run = none) :
    Mirrors s Action.expectRun (s.machine, .error { kind := .illegalDirect }) := by
  refine ofState ?_
  rw [state_of_run_eq_none stopped, if_pos (by decide)]
  exact throw _

/-- A loop that is opened takes the place of the loop that its variable has. -/
theorem giveUp (name : Text) :
    Mirrors s (Action.giveUp name)
      ({ s.machine with loops := Loop.outside name s.machine.loops }, .ok []) := by
  refine change ?_
  rw [loops_ofSession, Loop.outside]
  cases found : s.machine.loops.newest? (·.name == name) with
  | none =>
      rw [Stack.position?, found]
      rfl
  | some result =>
      obtain ⟨loop, below⟩ := result
      rw [Stack.position?_of_newest? found]
      dsimp only
      rw [Stack.truncate_size_of_newest? found]
      rfl

theorem pushLoop {r : Run} (running : s.machine.run = some r) (name : Text) (limit step : Int32) :
    Mirrors s (Action.pushLoop name limit step)
      (if s.machine.loops.size < Stack.capacity then
        ({ s.machine with
            loops := ⟨{ name, limit, step, resume := r.next } :: s.machine.loops.entries⟩ }, .ok [])
      else (s.machine, .error (.because .outOfMemory "TOO MANY NESTED LOOPS"))) := by
  refine ofState ?_
  rw [counter_ofSession running, loops_ofSession, Stack.push]
  split
  · exact read_ok (.lift (.ok _)) (change rfl)
  · exact read_error (.lift (.error _))

theorem popLoop {loop : Loop} {below : List Loop} (loops : s.machine.loops = ⟨loop :: below⟩) :
    Mirrors s Action.popLoop ({ s.machine with loops := ⟨below⟩ }, .ok []) := by
  refine ofState ?_
  rw [loops_ofSession, loops]
  have popped : Reads s (Action.lift (Stack.pop (⟨loop :: below⟩ : Stack Loop)))
      (.ok (loop, ⟨below⟩)) := .lift (.ok (loop, (⟨below⟩ : Stack Loop)))
  exact read_ok popped (change rfl)

theorem openLoop (name : Text) (start limit : Expression) (step : Option Expression) :
    Mirrors s (Action.openLoop name start limit step)
      (s.machine.openLoop name start limit step) := by
  cases running : s.machine.run with
  | none =>
      rw [Machine.openLoop]
      simp only [running]
      exact fail (expectRun_of_run_eq_none running)
  | some r =>
      rw [Machine.openLoop_of_running running, Machine.prepared]
      refine after (expectRun (Machine.isRunning_of_run running)) ?_
      refine read (.integer start) (fun e failed => by rw [failed]; rfl) fun a first => ?_
      rw [first]
      refine read (.integer limit) (fun e failed => by rw [failed]; rfl) fun b last => ?_
      rw [last]
      refine read (.stride step) (fun e failed => by rw [failed]; rfl) fun c stride => ?_
      rw [stride]
      dsimp only [Bind.bind, Except.bind]
      have stores := store (s := s) name (.integer a)
      cases stored : s.machine.vars.store name (.integer a) with
      | error e =>
          rw [stored] at stores
          exact fail stores
      | ok vars =>
          rw [stored] at stores
          let m : Machine := { s.machine with vars, loops := Loop.outside name s.machine.loops }
          have pushed := pushLoop (s := { s with machine := m }) running name b c
          exact after stores (after (giveUp name) pushed)

theorem closeLoop (name : Option Text) :
    Mirrors s (Action.closeLoop name) (s.machine.closeLoop name) := by
  cases running : s.machine.run with
  | none =>
      rw [Machine.closeLoop]
      simp only [running]
      exact fail (expectRun_of_run_eq_none running)
  | some r =>
      refine after (expectRun (Machine.isRunning_of_run running)) ?_
      cases found : s.machine.target? name with
      | none =>
          have stays : s.machine.closeLoop name =
              (s.machine, .error { kind := .nextWithoutFor }) := by
            rw [Machine.target?] at found
            rw [Machine.closeLoop]
            simp only [running, found]
          rw [stays]
          exact read_error (.target_of_none found)
      | some result =>
          obtain ⟨loop, below⟩ := result
          rw [Machine.closeLoop_of_target running found, Machine.advanced]
          refine read_ok (.target_of_some found) ?_
          have inner : s.machine.loops.truncate (below.size + 1) = ⟨loop :: below.entries⟩ :=
            Stack.truncate_size_add_one_of_newest? found
          refine after (m := { s.machine with loops := ⟨loop :: below.entries⟩ })
            (change (congrArg (fun loops => { ofSession s with loops }) inner)) ?_
          refine read (.following loop) (fun e failed => ?_) fun result advances => ?_
          · have failed : s.machine.following loop = .error e := failed
            rw [failed]
            rfl
          obtain ⟨next, again⟩ := result
          have advances : s.machine.following loop = .ok (next, again) := advances
          rw [advances]
          dsimp only [Bind.bind, Except.bind]
          have stores := store (s := { s with machine :=
            { s.machine with loops := ⟨loop :: below.entries⟩ } }) loop.name (.integer next)
          cases stored : s.machine.vars.store loop.name (.integer next) with
          | error e =>
              rw [stored] at stores
              exact fail stores
          | ok vars =>
              rw [stored] at stores
              refine after stores ?_
              let m : Machine := { s.machine with vars, loops := ⟨loop :: below.entries⟩ }
              cases again with
              | true =>
                  have resumed := resume_ofSession (s := { s with machine := m }) running loop.resume
                  have goes : Mirrors { s with machine := m }
                      (Action.change ({ · with counter := loop.resume }))
                      ({ m with run := some { r with next := loop.resume } }, .ok []) :=
                    change resumed
                  exact goes
              | false => exact popLoop (s := { s with machine := m }) rfl

/-- Performing a statement. -/
theorem perform (s : Session) (statement : Statement) :
    Mirrors s (Action.perform statement) (s.machine.perform statement) := by
  induction statement with
  | circle x y radius filled =>
      exact bind (.integer x) fun x => bind (.integer y) fun y => bind (.integer radius) fun r =>
        send _
  | clear => exact append (send _) (send _)
  | color text background => exact setColors text background
  | stop => exact after (m := s.machine.halt) (change (stop_ofSession s)) (write _)
  | fill x y => exact bind (.integer x) fun x => bind (.integer y) fun y => send _
  | loop name start limit step => exact openLoop name start limit step
  | home => exact send _
  | column e => exact position e fun column => send (.moveTo (some column) none)
  | branch condition yes ih =>
      refine read (.holds condition) (fun e failed => ?_) fun b holds => ?_
      · rw [Machine.perform, failed]
      · rw [Machine.perform, holds]
        cases b with
        | true => exact ih
        | false => exact pure
  | branchElse condition yes no ihyes ihno =>
      refine read (.holds condition) (fun e failed => ?_) fun b holds => ?_
      · rw [Machine.perform, failed]
      · rw [Machine.perform, holds]
        cases b with
        | true => exact ihyes
        | false => exact ihno
  | assign name e =>
      refine read (.value e) (fun error failed => ?_) fun v evaluated => ?_
      · rw [Machine.perform, failed]
        rfl
      · rw [Machine.perform, evaluated]
        exact store name v
  | line x₁ y₁ x₂ y₂ =>
      exact bind (.integer x₁) fun x₁ => bind (.integer y₁) fun y₁ =>
        bind (.integer x₂) fun x₂ => bind (.integer y₂) fun y₂ => send _
  | list => exact list
  | erase => exact after erase (write _)
  | next name => exact closeLoop name
  | plot x y => exact bind (.integer x) fun x => bind (.integer y) fun y => send _
  | print parts => exact print parts
  | rectangle x₁ y₁ x₂ y₂ filled =>
      exact bind (.integer x₁) fun x₁ => bind (.integer y₁) fun y₁ =>
        bind (.integer x₂) fun x₂ => bind (.integer y₂) fun y₂ => send _
  | remark => exact pure
  | run => exact run
  | row e => exact position e fun row => send (.moveTo none (some row))

end Mirrors

end Action

end Interpreter

end LineBasic
