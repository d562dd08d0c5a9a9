import LineBasic.Console.Host
import LineBasic.Proofs.Console.Calling
import Mathlib.Data.Nat.Find

/-!
# Courses of the host

A host takes one turn after the other, and reads a line whenever a turn ends with a prompt. A
`Course` is a finite part of this from the start, with the events in it: the entries of the
record, each call with what it is made for and why it fails, if it does. It leads up to a turn;
what happens at the keyboard from there on is still to come. `Returns` adds the last turn, after
which the host does not go on, and tells how it ends.

Courses and returns are those of `Host.run` (`Host.run_eq_some_iff`). A host that never returns
does so because some program runs on without end (`Host.exists_endless`).
-/

namespace LineBasic

/-- What a call is made for. -/
inductive Purpose where
  /-- To carry out what the session commands. -/
  | text
  | picture
  /-- To print that the host is ready. -/
  | ready
  deriving DecidableEq, Repr

/-- An entry of the record of a host. -/
inductive Event where
  | call (purpose : Purpose) (c : Call) (failure : Option Text)
  | read (line : Text)
  | complete (typed : Text) (offer : Option Text)
  | history (line : Text)
  deriving DecidableEq, Repr

namespace Event

/-- The event as the terminal records it. -/
def entry : Event → Record
  | call _ c _ => .call c
  | read line => .read line
  | complete typed offer => .complete typed offer
  | history line => .history line

/-- Why the call failed, if the event is one that did. -/
def failure? : Event → Option Text
  | call _ _ failure => failure
  | _ => none

/-- The failure of the first call that failed. -/
def firstFailure? (events : List Event) : Option Text := events.findSome? failure?

/-- The events of calls made one after the other. -/
def ofCalls (purpose : Purpose) (faults : Nat → Option Text) (first : Nat) :
    List Call → List Event
  | [] => []
  | c :: calls => call purpose c (faults first) :: ofCalls purpose faults (first + 1) calls

theorem entry_ofCalls (purpose : Purpose) (faults : Nat → Option Text) (first : Nat)
    (calls : List Call) : (ofCalls purpose faults first calls).map entry = calls.map .call := by
  induction calls generalizing first with
  | nil => rfl
  | cons c calls ih => exact congrArg (_ :: ·) (ih _)

theorem firstFailure?_ofCalls (purpose : Purpose) (faults : Nat → Option Text) (first : Nat)
    (calls : List Call) :
    firstFailure? (ofCalls purpose faults first calls) =
      (List.range' first calls.length).findSome? faults := by
  induction calls generalizing first with
  | nil => rfl
  | cons c calls ih =>
      rw [firstFailure?, ofCalls, List.findSome?_cons, List.length_cons, List.range'_succ,
        List.findSome?_cons, ← ih]
      rfl

theorem mem_ofCalls {purpose : Purpose} {faults : Nat → Option Text} {first : Nat}
    {calls : List Call} {e : Event} (h : e ∈ ofCalls purpose faults first calls) :
    ∃ c failure, e = call purpose c failure := by
  induction calls generalizing first with
  | nil => cases h
  | cons c calls ih =>
      rcases List.mem_cons.mp h with rfl | h
      · exact ⟨c, _, rfl⟩
      · exact ih h

@[simp] theorem firstFailure?_append (events events' : List Event) :
    firstFailure? (events ++ events') = (firstFailure? events).or (firstFailure? events') :=
  List.findSome?_append

end Event

namespace Terminal

/-- The calls on the record of the second terminal that are not on that of the first. -/
def since (t t' : Terminal) : List Call :=
  (t'.record.toList.drop t.record.size).filterMap fun
    | .call c => some c
    | _ => none

/-- The events of these calls. -/
def log (purpose : Purpose) (t t' : Terminal) : List Event :=
  Event.ofCalls purpose t.faults t.calls (t.since t')

theorem Made.since_eq {t t' : Terminal} {calls : List Call} (h : t.Made t' calls) :
    t.since t' = calls := by
  rw [since, h.record, ← Array.length_toList, List.drop_left, List.filterMap_map]
  simp

variable {t t' : Terminal} {calls : List Call}

theorem Made.entry_log (h : t.Made t' calls) (purpose : Purpose) :
    t'.record.toList = t.record.toList ++ (log purpose t t').map Event.entry := by
  rw [log, Event.entry_ofCalls, h.since_eq, h.record]

theorem Made.firstFailure?_log (h : t.Made t' calls) (purpose : Purpose) :
    Event.firstFailure? (log purpose t t') = t.fault? calls.length := by
  rw [log, Event.firstFailure?_ofCalls, h.since_eq, fault?]

theorem mem_log {purpose : Purpose} {e : Event} (h : e ∈ log purpose t t') :
    ∃ c failure, e = .call purpose c failure :=
  Event.mem_ofCalls h

end Terminal

/-- Whether reading a line goes on behind an action. -/
def Action.passes : Action → Bool
  | .complete _ | .interrupt | .interruptAfter _ | .faultAfter _ _ => true
  | _ => false

/-- The first action that ends the reading of a line. -/
def Action.decisive? (actions : List Action) : Option Action := actions.find? (!·.passes)

/-- What the reading of a line comes to. Nothing more to happen is the end of the input. -/
def Input.ofAction? : Option Action → Input
  | some (.line text) => .line text
  | some (.failure reason) => .failure reason
  | _ => .closed

/-- The events of reading a line. -/
def Event.ofReading (offer : Text → Option Text) : List Action → List Event
  | .line text :: _ => [.read text]
  | .complete typed :: rest => .complete typed (offer typed) :: ofReading offer rest
  | .interrupt :: rest | .interruptAfter _ :: rest | .faultAfter _ _ :: rest =>
    ofReading offer rest
  | _ => []

namespace Terminal

theorem readLine_input (offer : Text → Option Text) (t : Terminal) (actions : List Action) :
    (t.readLine offer actions).2.1 = Input.ofAction? (Action.decisive? actions) := by
  fun_induction readLine offer t actions with
  | case1 | case2 | case3 | case4 | case5 => rfl
  | case6 t typed rest ih | case7 t rest ih | case8 t n rest ih | case9 t n reason rest ih =>
      rw [ih]
      rfl

theorem readLine_record (offer : Text → Option Text) (t : Terminal) (actions : List Action) :
    (t.readLine offer actions).1.record.toList =
      t.record.toList ++ (Event.ofReading offer actions).map Event.entry := by
  fun_induction readLine offer t actions with
  | case1 | case3 | case4 | case5 => simp [Event.ofReading]
  | case2 => simp [Event.ofReading, note, Event.entry]
  | case6 t typed rest ih =>
      rw [ih]
      simp [Event.ofReading, note, Event.entry]
  | case7 t rest ih | case8 t n rest ih | case9 t n reason rest ih =>
      rw [ih, Event.ofReading]

theorem readLine_calls (offer : Text → Option Text) (t : Terminal) (actions : List Action) :
    (t.readLine offer actions).1.calls = t.calls := by
  fun_induction readLine offer t actions with
  | case1 | case2 | case3 | case4 | case5 => rfl
  | case6 t typed rest ih | case7 t rest ih | case8 t n rest ih | case9 t n reason rest ih =>
      exact ih

/-- A line is read from what is left to happen. -/
theorem readLine_rest (offer : Text → Option Text) (t : Terminal) (actions : List Action)
    {line : Text} (h : (t.readLine offer actions).2.1 = .line line) :
    (t.readLine offer actions).2.2.length < actions.length := by
  fun_induction readLine offer t actions with
  | case1 | case3 | case4 | case5 => cases h
  | case2 => simp
  | case6 t typed rest ih | case7 t rest ih | case8 t n rest ih | case9 t n reason rest ih =>
      exact Nat.lt_succ_of_lt (ih h)

end Terminal

namespace Host

/-- The host once its slice was executed and the held text was written. -/
def flushed (h : Host) : Host := { h.slice.1 with output := h.slice.1.output.flush.1 }

/-- The host once its picture was drawn, too. -/
def drawn (h : Host) : Host := h.flushed.drawPicture.1

/-- The host once it printed that it is ready, too. -/
def readied (h : Host) : Host := h.drawn.printReady.1

/-- The calls for the text of a slice. -/
def textEvents (h : Host) : List Event :=
  Terminal.log .text h.output.terminal h.flushed.output.terminal

/-- The call for a picture. -/
def pictureEvents (h : Host) : List Event :=
  Terminal.log .picture h.flushed.output.terminal h.drawn.output.terminal

/-- The call by which the host prints that it is ready. -/
def readyEvents (h : Host) : List Event :=
  Terminal.log .ready h.drawn.output.terminal h.readied.output.terminal

/-- The events of a turn. -/
def turnEvents (h : Host) : List Event :=
  match h.slice.1.output.flush.2, h.slice.2, h.flushed.drawPicture.2 with
  | none, .stopped, none => h.textEvents ++ h.pictureEvents ++ h.readyEvents
  | none, .stopped, some _ => h.textEvents ++ h.pictureEvents
  | _, _, _ => h.textEvents

/-- How a turn goes: its events, the host after it, and what comes next. A picture is drawn only
if no text failed and nothing is left to do, and the host prints that it is ready only if the
picture did not fail either. -/
inductive Goes (h : Host) : List Event → Host → Turn → Prop where
  | textFailed {reason : Text} : h.slice.1.output.flush.2 = some reason →
      Goes h h.textEvents h.flushed (.failed reason)
  | again : h.slice.1.output.flush.2 = none → h.slice.2 = .running →
      Goes h h.textEvents h.flushed .again
  | pictureFailed {reason : Text} : h.slice.1.output.flush.2 = none → h.slice.2 = .stopped →
      h.flushed.drawPicture.2 = some reason →
      Goes h (h.textEvents ++ h.pictureEvents) h.drawn (.failed reason)
  | readyFailed {reason : Text} : h.slice.1.output.flush.2 = none → h.slice.2 = .stopped →
      h.flushed.drawPicture.2 = none → h.drawn.printReady.2 = some reason →
      Goes h (h.textEvents ++ h.pictureEvents ++ h.readyEvents) h.readied (.failed reason)
  | prompt : h.slice.1.output.flush.2 = none → h.slice.2 = .stopped →
      h.flushed.drawPicture.2 = none → h.drawn.printReady.2 = none →
      Goes h (h.textEvents ++ h.pictureEvents ++ h.readyEvents) h.readied .prompt

/-- A turn in terms of the hosts in between. -/
theorem turn_eq (h : Host) :
    h.turn =
      match h.slice.1.output.flush.2, h.slice.2, h.flushed.drawPicture.2, h.drawn.printReady.2 with
      | some reason, _, _, _ => (h.flushed, .failed reason)
      | none, .running, _, _ => (h.flushed, .again)
      | none, .stopped, some reason, _ => (h.drawn, .failed reason)
      | none, .stopped, none, some reason => (h.readied, .failed reason)
      | none, .stopped, none, none => (h.readied, .prompt) := by
  unfold turn readied drawn flushed
  dsimp only
  cases h.slice.1.output.flush.2 with
  | some reason => rfl
  | none =>
      cases h.slice.2 with
      | running => rfl
      | stopped =>
          dsimp only
          split
          · next picture => simp only [picture]
          · next picture =>
            simp only [picture]
            split
            · next ready => simp only [ready]
            · next ready => simp only [ready]

theorem goes (h : Host) : Goes h h.turnEvents h.turn.1 h.turn.2 := by
  rw [turn_eq, turnEvents]
  cases text : h.slice.1.output.flush.2 with
  | some reason => exact .textFailed text
  | none =>
      cases activity : h.slice.2 with
      | running => exact .again text activity
      | stopped =>
          cases picture : h.flushed.drawPicture.2 with
          | some reason => exact .pictureFailed text activity picture
          | none =>
              cases ready : h.drawn.printReady.2 with
              | some reason => exact .readyFailed text activity picture ready
              | none => exact .prompt text activity picture ready

/-- The host that has looked at the keyboard, what came of it, and what is left to happen. -/
def reading (h : Host) (actions : List Action) : Host × Input × List Action :=
  let (terminal, input, rest) := h.output.terminal.readLine h.offer actions
  ({ h with output := { h.output with terminal } }, input, rest)

/-- The events of taking a line, which is remembered if the session accepts it. -/
def takeEvents (h : Host) (line : Text) : List Event :=
  if (h.session.enter line).2 then [.history line] else []

/-- The turns and events from the start up to a turn, with what is left to happen. A turn is
given by the host that takes it. -/
inductive Course (start : Host) (script : List Action) :
    List Host → List Event → Host → List Action → Prop where
  | start : Course start script [] [] start script
  | again {turns : List Host} {events : List Event} {h : Host} {rest : List Action} :
      Course start script turns events h rest → h.turn.2 = .again →
      Course start script (turns ++ [h]) (events ++ h.turnEvents) h.turn.1 rest
  | read {turns : List Host} {events : List Event} {h : Host} {rest : List Action} {line : Text} :
      Course start script turns events h rest → h.turn.2 = .prompt →
      (h.turn.1.reading rest).2.1 = .line line →
      Course start script (turns ++ [h])
        (events ++ h.turnEvents ++ Event.ofReading h.turn.1.offer rest ++
          (h.turn.1.reading rest).1.takeEvents line)
        ((h.turn.1.reading rest).1.take line) (h.turn.1.reading rest).2.2

/-- How a host ends. -/
inductive Ending where
  | callFailed (reason : Text)
  | readFailed (reason : Text)
  /-- The input was at its end, or there was a signal. -/
  | closed
  deriving DecidableEq, Repr

/-- What the host tells when it ends. -/
def Ending.reason? : Ending → Option Text
  | .callFailed reason | .readFailed reason => some reason
  | .closed => none

/-- The turns before the last one, all events, the last state of the host, and how it ended,
with what was left to happen at the last turn. -/
inductive Returns (start : Host) (script : List Action) :
    List Host → List Event → Host → List Action → Ending → Prop where
  | callFailed {turns : List Host} {events : List Event} {h : Host} {rest : List Action}
      {reason : Text} :
      Course start script turns events h rest → h.turn.2 = .failed reason →
      Returns start script turns (events ++ h.turnEvents) h.turn.1 rest (.callFailed reason)
  | readFailed {turns : List Host} {events : List Event} {h : Host} {rest : List Action}
      {reason : Text} :
      Course start script turns events h rest → h.turn.2 = .prompt →
      (h.turn.1.reading rest).2.1 = .failure reason →
      Returns start script turns (events ++ h.turnEvents ++ Event.ofReading h.turn.1.offer rest)
        (h.turn.1.reading rest).1 rest (.readFailed reason)
  | closed {turns : List Host} {events : List Event} {h : Host} {rest : List Action} :
      Course start script turns events h rest → h.turn.2 = .prompt →
      (h.turn.1.reading rest).2.1 = .closed →
      Returns start script turns (events ++ h.turnEvents ++ Event.ofReading h.turn.1.offer rest)
        (h.turn.1.reading rest).1 rest .closed

section Run

variable {start h : Host} {turns : List Host} {script rest : List Action} {fuel : Nat}
  {events : List Event}

/-- A run goes on by one turn. -/
theorem run_succ (h : Host) (fuel : Nat) (actions : List Action) :
    h.run (fuel + 1) actions =
      match h.turn.2 with
      | .failed reason => some (h.turn.1, some reason)
      | .again => h.turn.1.run fuel actions
      | .prompt =>
        match (h.turn.1.reading actions).2.1 with
        | .closed => some ((h.turn.1.reading actions).1, none)
        | .failure reason => some ((h.turn.1.reading actions).1, some reason)
        | .line line =>
          ((h.turn.1.reading actions).1.take line).run fuel (h.turn.1.reading actions).2.2 := by
  rw [run]
  rcases h.turn with ⟨h', next⟩
  cases next with
  | failed | again | prompt => rfl

theorem Course.run_add (c : Course start script turns events h rest) (fuel : Nat) :
    start.run (turns.length + fuel) script = h.run fuel rest := by
  induction c generalizing fuel with
  | start => rw [List.length_nil, Nat.zero_add]
  | again c turn ih =>
      rw [List.length_append, List.length_singleton, Nat.add_assoc, Nat.add_comm 1, ih, run_succ,
        turn]
  | read c turn line ih =>
      rw [List.length_append, List.length_singleton, Nat.add_assoc, Nat.add_comm 1, ih, run_succ,
        turn]
      simp only [line]

/-- A run ends as the host returns. -/
theorem run_eq_some_iff {last : Host} {reason : Option Text} :
    start.run fuel script = some (last, reason) ↔
      ∃ turns events rest ending, turns.length < fuel ∧
        start.Returns script turns events last rest ending ∧ reason = ending.reason? := by
  constructor
  · intro run
    have onward : ∀ (fuel : Nat) (turns : List Host) (events : List Event) (h : Host)
        (rest : List Action), start.Course script turns events h rest →
        h.run fuel rest = some (last, reason) →
          ∃ turns' events rest ending, turns'.length < turns.length + fuel ∧
            start.Returns script turns' events last rest ending ∧ reason = ending.reason? := by
      intro fuel
      induction fuel with
      | zero =>
          intro turns events h rest c run
          cases run
      | succ fuel ih =>
          intro turns events h rest c run
          rw [run_succ] at run
          split at run
          · next failed =>
            cases run
            exact ⟨turns, _, rest, _, by omega, .callFailed c failed, rfl⟩
          · next again =>
            obtain ⟨turns', events', rest', ending, bound, returns⟩ :=
              ih _ _ _ _ (.again c again) run
            exact ⟨turns', events', rest', ending, by grind, returns⟩
          · next prompt =>
            split at run
            · next closed =>
              cases run
              exact ⟨turns, _, rest, _, by omega, .closed c prompt closed, rfl⟩
            · next failure =>
              cases run
              exact ⟨turns, _, rest, _, by omega, .readFailed c prompt failure, rfl⟩
            · next line read =>
              obtain ⟨turns', events', rest', ending, bound, returns⟩ :=
                ih _ _ _ _ (.read c prompt read) run
              exact ⟨turns', events', rest', ending, by grind, returns⟩
    simpa using onward fuel [] [] start script .start run
  · rintro ⟨turns, events, rest, ending, bound, returns, rfl⟩
    obtain ⟨more, rfl⟩ := Nat.exists_eq_add_of_lt bound
    cases returns with
    | callFailed c failed =>
        rw [Nat.add_assoc, c.run_add, run_succ, failed]
        rfl
    | readFailed c prompt failure =>
        rw [Nat.add_assoc, c.run_add, run_succ, prompt]
        simp only [failure]
        rfl
    | closed c prompt closed =>
        rw [Nat.add_assoc, c.run_add, run_succ, prompt]
        simp only [closed]
        rfl

/-- The host after a number of turns, with no line read in between. -/
def afterTurns (h : Host) : Nat → Host
  | 0 => h
  | k + 1 => (h.afterTurns k).turn.1

theorem Course.exists_afterTurns (c : Course start script turns events h rest) (k : Nat)
    (again : ∀ i < k, (h.afterTurns i).turn.2 = .again) :
    ∃ turns events, start.Course script turns events (h.afterTurns k) rest := by
  induction k with
  | zero => exact ⟨turns, events, c⟩
  | succ k ih =>
      obtain ⟨turns, events, c⟩ := ih fun i small => again i (Nat.lt_succ_of_lt small)
      exact ⟨_, _, .again c (again k (Nat.lt_succ_self k))⟩

/-- A host that never returns takes turns without end at some time, and reads no more lines. -/
theorem exists_endless (never : ∀ fuel, start.run fuel script = none) :
    ∃ turns events h rest, start.Course script turns events h rest ∧
      ∀ k, (h.afterTurns k).turn.2 = .again := by
  -- after a course that leaves the least to happen no line can be read
  have left : ∃ size turns events h rest,
      start.Course script turns events h rest ∧ rest.length = size :=
    ⟨_, [], [], start, script, .start, rfl⟩
  classical
  obtain ⟨turns, events, h, rest, c, size⟩ := Nat.find_spec left
  refine ⟨turns, events, h, rest, c, fun k => ?_⟩
  induction k using Nat.strongRecOn with
  | ind k again =>
      obtain ⟨turns', events', c'⟩ := c.exists_afterTurns k again
      have goes : (h.afterTurns k).run 1 rest = none := by
        rw [← c'.run_add]
        exact never _
      rw [run_succ] at goes
      split at goes
      · cases goes
      · next running => exact running
      · next prompt =>
        split at goes
        · cases goes
        · cases goes
        · next line read =>
          have shorter := Terminal.readLine_rest _ _ rest read
          exact absurd ⟨_, _, _, _, .read c' prompt read, rfl⟩
            (Nat.find_min left (Nat.lt_of_lt_of_eq shorter size))

end Run

end Host

end LineBasic
