import LineBasic.Proofs.Console.Course

/-!
# The first failure

A turn makes its calls in stages: for the text of a slice, for a picture, and to print that the
host is ready. The text may take many calls, all of which are made, because a failure in the
middle of a slice is only remembered. A later stage is entered only if none failed before, and
makes one call at most. So what a turn tells is the first failure of all its calls, and after a
call that failed there are only calls for text (`Goes.failure?_next`, `Goes.pairwise_admits`).

By induction over the turns no call of an earlier turn failed, for the host would have ended
then. Hence the first failure of all ends the host, and is what it tells.

Main statement: `Host.ends_with_first_failure`.
-/

namespace LineBasic

namespace Event

/-- The outcome of the call, if the event is one. -/
def outcome? : Event → Option (Option Text)
  | call _ _ failure => some failure
  | _ => none

/-- Whether the event is a call for text. -/
def IsText (e : Event) : Prop := ∃ c failure, e = call .text c failure

/-- After a call that failed, if there is anything, then both are calls for text. -/
def Admits (e later : Event) : Prop := e.failure? ≠ none → e.IsText ∧ later.IsText

theorem length_ofCalls (purpose : Purpose) (faults : Nat → Option Text) (first : Nat)
    (calls : List Call) : (ofCalls purpose faults first calls).length = calls.length := by
  rw [← List.length_map entry, entry_ofCalls, List.length_map]

theorem outcome?_ofCalls (purpose : Purpose) (faults : Nat → Option Text) (first : Nat)
    (calls : List Call) :
    (ofCalls purpose faults first calls).map outcome? =
      (List.range' first calls.length).map fun i => some (faults i) := by
  induction calls generalizing first with
  | nil => rfl
  | cons c calls ih => exact congrArg (some (faults first) :: ·) (ih _)

theorem firstFailure?_eq_none_iff {events : List Event} :
    firstFailure? events = none ↔ ∀ e ∈ events, e.failure? = none :=
  List.findSome?_eq_none_iff

theorem failure?_eq (e : Event) : e.failure? = e.outcome?.bind id := by
  cases e <;> rfl

theorem firstFailure?_eq_none {events : List Event} (quiet : ∀ e ∈ events, e.outcome? = none) :
    firstFailure? events = none := by
  refine firstFailure?_eq_none_iff.mpr fun e he => ?_
  rw [failure?_eq, quiet e he]
  rfl

theorem pairwise_admits {events : List Event} (fine : firstFailure? events = none) :
    events.Pairwise Admits :=
  List.pairwise_of_forall_mem_list fun e he _ _ failed =>
    absurd (firstFailure?_eq_none_iff.mp fine e he) failed

/-- Whatever follows is admitted after events without a failure. -/
theorem pairwise_admits_append {events events' : List Event} (fine : firstFailure? events = none)
    (later : events'.Pairwise Admits) : (events ++ events').Pairwise Admits :=
  List.pairwise_append.mpr ⟨pairwise_admits fine, later, fun e he _ _ failed =>
    absurd (firstFailure?_eq_none_iff.mp fine e he) failed⟩

theorem pairwise_admits_log (t t' : Terminal) : (t.log .text t').Pairwise Admits :=
  List.pairwise_of_forall_mem_list fun _ he _ hlater _ =>
    ⟨Terminal.mem_log he, Terminal.mem_log hlater⟩

end Event

namespace Terminal

/-- Making the calls of these events, and nothing else, leads from one terminal to the other,
and each fails as the first terminal had it. -/
structure Logged (t t' : Terminal) (events : List Event) : Prop where
  record : t'.record.toList = t.record.toList ++ events.map Event.entry
  outcomes : events.map Event.outcome? =
    (List.range' t.calls events.length).map fun i => some (t.faults i)
  count : t'.calls = t.calls + events.length
  faults : t'.faults = t.faults

/-- What is told about going from one terminal to the other is the first failure of the calls
that were made. -/
def Told (t t' : Terminal) (failure : Option Text) : Prop :=
  ∃ calls, t.Made t' calls ∧ failure = t.fault? calls.length

/-- At most one call was made, and its failure is told. -/
def ToldAtOnce (t t' : Terminal) (failure : Option Text) : Prop :=
  ∃ calls, calls.length ≤ 1 ∧ t.Made t' calls ∧ failure = t.fault? calls.length

variable {t t₁ t₂ t' : Terminal} {calls : List Call} {failure : Option Text}

theorem ToldAtOnce.told (h : t.ToldAtOnce t' failure) : t.Told t' failure := by
  obtain ⟨calls, -, made, told⟩ := h
  exact ⟨calls, made, told⟩

theorem ToldAtOnce.refl (t : Terminal) : t.ToldAtOnce t none := ⟨[], by simp, .refl t, rfl⟩

theorem toldAtOnce_call (t : Terminal) (c : Call) :
    t.ToldAtOnce (t.call c).1 (t.call c).2 :=
  ⟨[c], le_rfl, t.made_call c, (fault?_one t).symm⟩

theorem length_log (h : t.Made t' calls) (purpose : Purpose) :
    (log purpose t t').length = calls.length := by
  rw [log, h.since_eq, Event.length_ofCalls]

theorem ToldAtOnce.pairwise_log (h : t.ToldAtOnce t' failure) (purpose : Purpose)
    (r : Event → Event → Prop) : (log purpose t t').Pairwise r := by
  obtain ⟨calls, small, made, -⟩ := h
  refine List.pairwise_iff_getElem.mpr fun i j _ within before => ?_
  rw [length_log made] at within
  omega

theorem Logged.trans {events₁ events₂ : List Event} (first : t.Logged t₁ events₁)
    (second : t₁.Logged t₂ events₂) : t.Logged t₂ (events₁ ++ events₂) where
  record := by rw [second.record, first.record, List.map_append, List.append_assoc]
  outcomes := by
    rw [List.map_append, second.outcomes, first.outcomes, first.count, first.faults,
      List.length_append, ← List.range'_append_1, List.map_append]
  count := by rw [second.count, first.count, List.length_append, Nat.add_assoc]
  faults := second.faults.trans first.faults

theorem Told.logged (h : t.Told t' failure) (purpose : Purpose) :
    t.Logged t' (log purpose t t') := by
  obtain ⟨calls, made, -⟩ := h
  have size := length_log made purpose
  exact {
    record := made.entry_log purpose
    outcomes := by rw [size, log, made.since_eq, Event.outcome?_ofCalls]
    count := by rw [size, made.count]
    faults := made.faults }

theorem Told.firstFailure?_log (h : t.Told t' failure) (purpose : Purpose) :
    Event.firstFailure? (log purpose t t') = failure := by
  obtain ⟨calls, made, rfl⟩ := h
  exact made.firstFailure?_log purpose

end Terminal

/-- Whether the action changes which calls are going to fail. -/
def Action.setsFault : Action → Bool
  | .faultAfter _ _ => true
  | _ => false

namespace Terminal

theorem readLine_faults (offer : Text → Option Text) (t : Terminal) (actions : List Action)
    (kept : ∀ a ∈ actions, a.setsFault = false) :
    (t.readLine offer actions).1.faults = t.faults := by
  fun_induction readLine offer t actions with
  | case1 | case2 | case3 | case4 | case5 => rfl
  | case6 t typed rest ih | case7 t rest ih | case8 t n rest ih =>
      exact ih fun a ha => kept a (List.mem_cons_of_mem _ ha)
  | case9 t n reason rest ih => cases kept _ List.mem_cons_self

theorem readLine_subset (offer : Text → Option Text) (t : Terminal) (actions : List Action) :
    (t.readLine offer actions).2.2 ⊆ actions := by
  fun_induction readLine offer t actions with
  | case1 => exact List.Subset.refl _
  | case2 | case3 | case4 | case5 => exact List.subset_cons_self _ _
  | case6 t typed rest ih | case7 t rest ih | case8 t n rest ih | case9 t n reason rest ih =>
      exact List.subset_cons_of_subset _ ih

/-- The events tell all calls that were made on the terminal, each with the outcome that was
assigned to it. -/
structure Assigned (faults : Nat → Option Text) (events : List Event) (t : Terminal) :
    Prop where
  outcomes : events.filterMap Event.outcome? = (List.range t.calls).map faults
  faults : t.faults = faults

variable {t t' : Terminal} {faults : Nat → Option Text} {events events' : List Event}

/-- The first failure is that of the first call which was assigned one. -/
theorem Assigned.firstFailure? (h : t.Assigned faults events) :
    Event.firstFailure? events = (List.range t.calls).findSome? faults := by
  have failures : events.filterMap Event.failure? =
      ((List.range t.calls).map faults).filterMap id := by
    rw [← h.outcomes, List.filterMap_filterMap]
    exact congrArg (List.filterMap · events) (funext Event.failure?_eq)
  rw [Event.firstFailure?, ← List.head?_filterMap, failures, List.filterMap_map,
    List.head?_filterMap]
  rfl

theorem Assigned.append_logged (h : t.Assigned faults events) (logged : t.Logged t' events') :
    t'.Assigned faults (events ++ events') where
  outcomes := by
    have later : events'.filterMap Event.outcome? =
        (List.range' t.calls events'.length).map t.faults := by
      simpa [List.filterMap_map, Function.comp_def] using
        congrArg (List.filterMap id) logged.outcomes
    have numbers : List.range' 0 t.calls ++ List.range' t.calls events'.length =
        List.range' 0 (t.calls + events'.length) := by
      rw [← List.range'_append_1, Nat.zero_add]
    rw [List.filterMap_append, later, h.outcomes, h.faults, logged.count, List.range_eq_range',
      List.range_eq_range', ← numbers, List.map_append]
  faults := logged.faults.trans h.faults

theorem Assigned.append_quiet (h : t.Assigned faults events)
    (quiet : ∀ e ∈ events', e.outcome? = none) (count : t'.calls = t.calls)
    (same : t'.faults = t.faults) : t'.Assigned faults (events ++ events') where
  outcomes := by
    rw [List.filterMap_append, List.filterMap_eq_nil_iff.mpr quiet, List.append_nil, h.outcomes,
      count]
  faults := same.trans h.faults

end Terminal

namespace Output

theorem exists_made_applyAll (o : Output) (commands : List Display.Command) :
    ∃ made, Made o (commands.foldl apply o) made := by
  induction commands generalizing o with
  | nil => exact ⟨[], .refl o⟩
  | cons command commands ih =>
      obtain ⟨made₁, -, first, -⟩ := o.exists_made_apply command
      obtain ⟨made₂, rest⟩ := ih (o.apply command)
      exact ⟨made₁ ++ made₂, first.trans rest⟩

/-- If no failure was remembered before, flushing tells the first one since. -/
theorem Made.told_flush {o o' : Output} {calls : List Call} (h : o.Made o' calls)
    (fine : o.failure = none) : o.terminal.Told o'.flush.1.terminal o'.flush.2 := by
  obtain ⟨made, told⟩ := o'.made_flush
  refine ⟨_, h.terminal.trans made, ?_⟩
  rw [told, h.failure, fine, Option.none_or, h.terminal.fault?_append]

theorem told_drawPicture (o : Output) :
    o.terminal.ToldAtOnce o.drawPicture.1.terminal o.drawPicture.2 := by
  rw [drawPicture]
  split
  · exact o.terminal.toldAtOnce_call _
  · exact .refl _

@[simp] theorem failure_drawPicture (o : Output) : o.drawPicture.1.failure = o.failure := by
  rw [drawPicture]
  split <;> rfl

end Output

namespace Host

section Turn

variable {h : Host}

theorem made_passBreak (h : Host) : h.output.Made h.passBreak.output [] := by
  rw [passBreak]
  split
  · exact ⟨⟨by simp, rfl, rfl⟩, by simp, rfl⟩
  · exact .refl _

theorem exists_made_slice (h : Host) : ∃ calls, h.output.Made h.slice.1.output calls := by
  rw [slice]
  dsimp only
  rw [← Array.foldl_toList]
  obtain ⟨calls, made⟩ := h.passBreak.output.exists_made_applyAll
    (h.passBreak.session.execute h.passBreak.options.cycles).output.toList
  exact ⟨calls, h.made_passBreak.trans made⟩

/-- What is told when the text of a slice is flushed. -/
theorem told_flushed (fine : h.output.failure = none) :
    h.output.terminal.Told h.flushed.output.terminal h.slice.1.output.flush.2 := by
  obtain ⟨calls, made⟩ := h.exists_made_slice
  exact made.told_flush fine

theorem told_drawPicture (h : Host) :
    h.output.terminal.ToldAtOnce h.drawPicture.1.output.terminal h.drawPicture.2 := by
  rw [drawPicture]
  split
  · exact h.output.told_drawPicture
  · exact .refl _

theorem printReady_of_silent (silent : h.announce = false) : h.printReady = (h, none) := by
  rw [printReady, if_neg (Bool.eq_false_iff.mp silent)]

theorem printReady_of_announce (announce : h.announce = true) :
    (h.printReady.1.output.terminal, h.printReady.2) =
      h.output.terminal.call (.print (Style.bold ready ++ "\n")) := by
  rw [printReady, if_pos announce]
  split
  · next failed => exact failed.symm
  · next passed => exact passed.symm

theorem told_printReady (h : Host) :
    h.output.terminal.ToldAtOnce h.printReady.1.output.terminal h.printReady.2 := by
  cases announce : h.announce with
  | false =>
      rw [printReady_of_silent announce]
      exact .refl _
  | true =>
      have told := h.output.terminal.toldAtOnce_call (.print (Style.bold ready ++ "\n"))
      rwa [← printReady_of_announce announce] at told

@[simp] theorem failure_drawPicture (h : Host) :
    h.drawPicture.1.output.failure = h.output.failure := by
  rw [drawPicture]
  split
  · exact h.output.failure_drawPicture
  · rfl

@[simp] theorem failure_printReady (h : Host) :
    h.printReady.1.output.failure = h.output.failure := by
  rw [printReady]
  split
  · split <;> rfl
  · rfl

@[simp] theorem failure_flushed (h : Host) : h.flushed.output.failure = none :=
  h.slice.1.output.failure_flush

theorem firstFailure?_textEvents (fine : h.output.failure = none) :
    Event.firstFailure? h.textEvents = h.slice.1.output.flush.2 :=
  (told_flushed fine).firstFailure?_log .text

theorem firstFailure?_pictureEvents (h : Host) :
    Event.firstFailure? h.pictureEvents = h.flushed.drawPicture.2 :=
  h.flushed.told_drawPicture.told.firstFailure?_log .picture

theorem firstFailure?_readyEvents (h : Host) :
    Event.firstFailure? h.readyEvents = h.drawn.printReady.2 :=
  h.drawn.told_printReady.told.firstFailure?_log .ready

/-- Why the host fails, if it does. -/
def Turn.failure? : Turn → Option Text
  | .failed reason => some reason
  | _ => none

theorem Turn.eq_failed {next : Turn} {reason : Text} (failed : next.failure? = some reason) :
    next = .failed reason := by
  cases next with
  | failed => exact congrArg Turn.failed (Option.some.inj failed)
  | again | prompt => cases failed

namespace Goes

variable {events : List Event} {h' : Host} {next : Turn}

theorem failure_eq_none (goes : h.Goes events h' next) : h'.output.failure = none := by
  cases goes with
  | textFailed | again => exact h.failure_flushed
  | pictureFailed => exact h.flushed.failure_drawPicture.trans h.failure_flushed
  | readyFailed | prompt =>
      exact h.drawn.failure_printReady.trans
        (h.flushed.failure_drawPicture.trans h.failure_flushed)

theorem logged (goes : h.Goes events h' next) (fine : h.output.failure = none) :
    h.output.terminal.Logged h'.output.terminal events := by
  have text := (told_flushed fine).logged .text
  have picture := h.flushed.told_drawPicture.told.logged .picture
  have ready := h.drawn.told_printReady.told.logged .ready
  cases goes with
  | textFailed | again => exact text
  | pictureFailed => exact text.trans picture
  | readyFailed | prompt => exact (text.trans picture).trans ready

/-- What comes next is a failure just if a call failed, and the first failure is told. -/
theorem failure?_next (goes : h.Goes events h' next) (fine : h.output.failure = none) :
    next.failure? = Event.firstFailure? events := by
  have text := firstFailure?_textEvents fine
  have picture := h.firstFailure?_pictureEvents
  have ready := h.firstFailure?_readyEvents
  cases goes with
  | textFailed failed => rw [text, failed]; rfl
  | again passed => rw [text, passed]; rfl
  | pictureFailed passed _ failed =>
      rw [Event.firstFailure?_append, text, passed, picture, failed]
      rfl
  | readyFailed passed _ drew failed =>
      rw [Event.firstFailure?_append, Event.firstFailure?_append, text, passed, picture, drew,
        ready, failed]
      rfl
  | prompt passed _ drew printed =>
      rw [Event.firstFailure?_append, Event.firstFailure?_append, text, passed, picture, drew,
        ready, printed]
      rfl

theorem pairwise_admits (goes : h.Goes events h' next) (fine : h.output.failure = none) :
    events.Pairwise Event.Admits := by
  have passed := firstFailure?_textEvents fine
  have drew := h.firstFailure?_pictureEvents
  cases goes with
  | textFailed | again => exact Event.pairwise_admits_log _ _
  | pictureFailed text =>
      exact Event.pairwise_admits_append (passed.trans text)
        (h.flushed.told_drawPicture.pairwise_log .picture _)
  | readyFailed text _ picture | prompt text _ picture =>
      rw [List.append_assoc]
      exact Event.pairwise_admits_append (passed.trans text)
        (Event.pairwise_admits_append (drew.trans picture)
          (h.drawn.told_printReady.pairwise_log .ready _))

/-- If a call for text failed, the turn was over when the text was flushed. -/
theorem eq_flushed (goes : h.Goes events h' next) (fine : h.output.failure = none)
    (failed : Event.firstFailure? h.textEvents ≠ none) : h' = h.flushed := by
  rw [firstFailure?_textEvents fine] at failed
  cases goes with
  | textFailed | again => rfl
  | pictureFailed text | readyFailed text | prompt text => exact absurd text failed

end Goes

end Turn

/-- A host on a new terminal, given which calls are going to fail and during which call the
break key is going to be pressed, unless it was pressed before. -/
def facing (options : Options) (faults : Nat → Option Text) (breakAt : Option Nat)
    (interrupted : Bool) : Host :=
  { initial options with
    output := { (initial options).output with terminal := { faults, breakAt, interrupted } } }

section Course

variable {start h last : Host} {turns : List Host} {script rest : List Action} {events : List Event}
  {ending : Ending}

theorem record_reading (h : Host) (actions : List Action) :
    (h.reading actions).1.output.terminal.record.toList =
      h.output.terminal.record.toList ++ (Event.ofReading h.offer actions).map Event.entry :=
  Terminal.readLine_record h.offer h.output.terminal actions

theorem record_take (h : Host) (line : Text) :
    (h.take line).output.terminal.record.toList =
      h.output.terminal.record.toList ++ (h.takeEvents line).map Event.entry := by
  rw [take, takeEvents]
  rcases h.session.enter line with ⟨session, accepted⟩
  cases accepted with
  | false => simp [Output.echo]
  | true => simp [Output.echo, Terminal.note, Event.entry]

theorem failure_take (h : Host) (line : Text) :
    (h.take line).output.failure = h.output.failure := by
  rw [take]
  split <;> rfl

theorem calls_take (h : Host) (line : Text) :
    (h.take line).output.terminal.calls = h.output.terminal.calls := by
  rw [take]
  split <;> rfl

theorem faults_take (h : Host) (line : Text) :
    (h.take line).output.terminal.faults = h.output.terminal.faults := by
  rw [take]
  split <;> rfl

theorem outcome?_ofReading (offer : Text → Option Text) (actions : List Action) :
    ∀ e ∈ Event.ofReading offer actions, e.outcome? = none := by
  fun_induction Event.ofReading offer actions with
  | case1 => simp [Event.outcome?]
  | case2 typed rest ih => simpa [Event.outcome?] using ih
  | case3 rest ih | case4 n rest ih | case5 n reason rest ih => exact ih
  | case6 => simp

theorem outcome?_takeEvents (h : Host) (line : Text) :
    ∀ e ∈ h.takeEvents line, e.outcome? = none := by
  rw [takeEvents]
  split <;> simp [Event.outcome?]

theorem Course.failure_eq_none (c : start.Course script turns events h rest)
    (fine : start.output.failure = none) : h.output.failure = none := by
  induction c with
  | start => exact fine
  | again => exact (goes _).failure_eq_none
  | read => exact (failure_take _ _).trans (goes _).failure_eq_none

/-- A turn after a course makes its calls, and tells the first failure among them. -/
theorem Course.logged (c : start.Course script turns events h rest)
    (fine : start.output.failure = none) :
    h.output.terminal.Logged h.turn.1.output.terminal h.turnEvents ∧
      h.turn.2.failure? = Event.firstFailure? h.turnEvents :=
  ⟨h.goes.logged (c.failure_eq_none fine), h.goes.failure?_next (c.failure_eq_none fine)⟩

theorem Course.record (c : start.Course script turns events h rest)
    (fine : start.output.failure = none) :
    h.output.terminal.record.toList =
      start.output.terminal.record.toList ++ events.map Event.entry := by
  induction c with
  | start => simp
  | again c turn ih =>
      rw [(c.logged fine).1.record, ih, List.map_append, List.append_assoc]
  | read c turn line ih =>
      rw [record_take, record_reading, (c.logged fine).1.record, ih]
      simp only [List.map_append, List.append_assoc]

/-- No call of an earlier turn failed. -/
theorem Course.firstFailure?_eq_none (c : start.Course script turns events h rest)
    (fine : start.output.failure = none) : Event.firstFailure? events = none := by
  induction c with
  | start => rfl
  | again c turn ih =>
      rw [Event.firstFailure?_append, ih, ← (c.logged fine).2, turn]
      rfl
  | read c turn line ih =>
      rw [Event.firstFailure?_append, Event.firstFailure?_append, Event.firstFailure?_append, ih,
        ← (c.logged fine).2, turn, Event.firstFailure?_eq_none (outcome?_ofReading _ _),
        Event.firstFailure?_eq_none (outcome?_takeEvents _ _)]
      rfl

theorem Course.assigned {faults : Nat → Option Text} (c : start.Course script turns events h rest)
    (fine : start.output.failure = none) (new : start.output.terminal.Assigned faults [])
    (kept : ∀ a ∈ script, a.setsFault = false) :
    h.output.terminal.Assigned faults events ∧ rest ⊆ script := by
  induction c with
  | start => exact ⟨new, List.Subset.refl _⟩
  | again c turn ih => exact ⟨ih.1.append_logged (c.logged fine).1, ih.2⟩
  | @read turns events h rest line c turn read ih =>
      have turned := ih.1.append_logged (c.logged fine).1
      have looked : (h.turn.1.reading rest).1.output.terminal.Assigned faults _ :=
        turned.append_quiet (outcome?_ofReading h.turn.1.offer rest) (Terminal.readLine_calls _ _ _)
          (Terminal.readLine_faults _ _ _ fun a ha => kept a (ih.2 ha))
      exact ⟨looked.append_quiet (outcome?_takeEvents _ _) (calls_take _ line) (faults_take _ line),
        List.Subset.trans (Terminal.readLine_subset _ _ _) ih.2⟩

theorem reading_input (h : Host) (actions : List Action) :
    (h.reading actions).2.1 = Input.ofAction? (Action.decisive? actions) :=
  Terminal.readLine_input h.offer h.output.terminal actions

/-- Reading a line comes to nothing only at the end of the input or because of a signal. -/
theorem decisive?_of_closed {actions : List Action}
    (closed : Input.ofAction? (Action.decisive? actions) = .closed) :
    Action.decisive? actions ∈ [none, some .endOfInput, some .signal] := by
  cases decisive : Action.decisive? actions with
  | none => simp
  | some action =>
      have passes := List.find?_some decisive
      rw [decisive] at closed
      cases action with
      | endOfInput | signal => simp
      | line | failure => cases closed
      | complete | interrupt | interruptAfter | faultAfter => cases passes

theorem decisive?_of_failure {actions : List Action} {reason : Text}
    (failed : Input.ofAction? (Action.decisive? actions) = .failure reason) :
    Action.decisive? actions = some (.failure reason) := by
  cases decisive : Action.decisive? actions with
  | none =>
      rw [decisive] at failed
      cases failed
  | some action =>
      rw [decisive] at failed
      cases action <;> cases failed
      rfl

theorem Returns.record (r : start.Returns script turns events last rest ending)
    (fine : start.output.failure = none) :
    last.output.terminal.record.toList =
      start.output.terminal.record.toList ++ events.map Event.entry := by
  cases r with
  | callFailed c =>
      rw [(c.logged fine).1.record, c.record fine, List.map_append, List.append_assoc]
  | readFailed c | closed c =>
      rw [record_reading, (c.logged fine).1.record, c.record fine]
      simp only [List.map_append, List.append_assoc]

theorem Returns.firstFailure? (r : start.Returns script turns events last rest ending)
    (fine : start.output.failure = none) (reason : Text) :
    Event.firstFailure? events = some reason ↔ ending = .callFailed reason := by
  cases r with
  | callFailed c failed =>
      rw [Event.firstFailure?_append, c.firstFailure?_eq_none fine, ← (c.logged fine).2, failed]
      simp [Turn.failure?]
  | readFailed c prompt | closed c prompt =>
      rw [Event.firstFailure?_append, Event.firstFailure?_append, c.firstFailure?_eq_none fine,
        ← (c.logged fine).2, prompt, Event.firstFailure?_eq_none (outcome?_ofReading _ _)]
      simp [Turn.failure?]

/-- If no call failed and reading did not fail, the host was closed. -/
theorem Returns.closed_of_readable (r : start.Returns script turns events last rest ending)
    (fine : start.output.failure = none) (passed : Event.firstFailure? events = none)
    (readable : ∀ reason, Action.decisive? rest ≠ some (.failure reason)) :
    ending.reason? = none ∧ Action.decisive? rest ∈ [none, some .endOfInput, some .signal] := by
  have told := r.firstFailure? fine
  cases r with
  | callFailed c failed =>
      rw [(told _).mpr rfl] at passed
      cases passed
  | readFailed c prompt read =>
      rw [reading_input] at read
      exact absurd (decisive?_of_failure read) (readable _)
  | closed c prompt read =>
      rw [reading_input] at read
      exact ⟨rfl, decisive?_of_closed read⟩

theorem Returns.pairwise_admits (r : start.Returns script turns events last rest ending)
    (fine : start.output.failure = none) : events.Pairwise Event.Admits := by
  cases r with
  | callFailed c =>
      exact Event.pairwise_admits_append (c.firstFailure?_eq_none fine)
        ((goes _).pairwise_admits (c.failure_eq_none fine))
  | readFailed c prompt | closed c prompt =>
      rw [List.append_assoc]
      refine Event.pairwise_admits_append (c.firstFailure?_eq_none fine) ?_
      refine Event.pairwise_admits_append ?_
        (Event.pairwise_admits (Event.firstFailure?_eq_none (outcome?_ofReading _ _)))
      rw [← (c.logged fine).2, prompt]
      rfl

theorem Returns.assigned {faults : Nat → Option Text}
    (r : start.Returns script turns events last rest ending) (fine : start.output.failure = none)
    (new : start.output.terminal.Assigned faults [])
    (kept : ∀ a ∈ script, a.setsFault = false) :
    last.output.terminal.Assigned faults events := by
  cases r with
  | callFailed c => exact (c.assigned fine new kept).1.append_logged (c.logged fine).1
  | readFailed c | closed c =>
      obtain ⟨before, within⟩ := c.assigned fine new kept
      exact (before.append_logged (c.logged fine).1).append_quiet (outcome?_ofReading _ _)
        (Terminal.readLine_calls _ _ _)
        (Terminal.readLine_faults _ _ _ fun a ha => kept a (within ha))

end Course

/-- How the failures of a terminal end the host. At the start the outcomes of all calls are
assigned by their numbers. -/
structure EndsWithFirstFailure (start : Host) (faults : Nat → Option Text)
    (script : List Action) : Prop where
  /-- The host returns as `Returns` has it, and tells why. -/
  run_eq {fuel : Nat} {last : Host} {reason : Option Text} :
    start.run fuel script = some (last, reason) ↔
      ∃ turns events rest ending, turns.length < fuel ∧
        start.Returns script turns events last rest ending ∧ reason = ending.reason?
  /-- If it does not, then it takes turns without end at some time. -/
  endless : (∀ fuel, start.run fuel script = none) →
    ∃ turns events h rest, start.Course script turns events h rest ∧
      ∀ k, (h.afterTurns k).turn.2 = .again
  /-- The events are those on the record. -/
  record {turns : List Host} {events : List Event} {last : Host} {rest : List Action}
      {ending : Ending} :
    start.Returns script turns events last rest ending →
      last.output.terminal.record.toList = events.map Event.entry
  /-- The calls fail as it is assigned, unless the script changes that. -/
  assigned {turns : List Host} {events : List Event} {last : Host} {rest : List Action}
      {ending : Ending} :
    start.Returns script turns events last rest ending → (∀ a ∈ script, a.setsFault = false) →
      last.output.terminal.Assigned faults events
  /-- Before a turn no call failed. -/
  passed {turns : List Host} {events : List Event} {h : Host} {rest : List Action} :
    start.Course script turns events h rest → Event.firstFailure? events = none
  /-- In a turn with a call that fails the host returns, with the first failure. -/
  ends {turns : List Host} {events : List Event} {h : Host} {rest : List Action} {reason : Text} :
    start.Course script turns events h rest → Event.firstFailure? h.turnEvents = some reason →
      start.Returns script turns (events ++ h.turnEvents) h.turn.1 rest (.callFailed reason)
  /-- If it is a call for text that fails, the host returns once the slice is over and its text
  is flushed. -/
  flushed {turns : List Host} {events : List Event} {h : Host} {rest : List Action} :
    start.Course script turns events h rest → Event.firstFailure? h.textEvents ≠ none →
      h.turn.1 = h.flushed
  /-- After a call that failed no line is read, none is added to the history, no picture is
  drawn, and the host does not print that it is ready. -/
  admits {turns : List Host} {events : List Event} {last : Host} {rest : List Action}
      {ending : Ending} :
    start.Returns script turns events last rest ending → events.Pairwise Event.Admits
  /-- What the host tells is the first failure. -/
  told {turns : List Host} {events : List Event} {last : Host} {rest : List Action}
      {ending : Ending} {reason : Text} :
    start.Returns script turns events last rest ending →
      (Event.firstFailure? events = some reason ↔ ending = .callFailed reason)
  /-- If no call fails and no reading, the host returns without a failure, and only at the end
  of the input or because of a signal. -/
  fine {turns : List Host} {events : List Event} {last : Host} {rest : List Action}
      {ending : Ending} :
    start.Returns script turns events last rest ending → Event.firstFailure? events = none →
      (∀ reason, Action.decisive? rest ≠ some (.failure reason)) →
        ending.reason? = none ∧
          Action.decisive? rest ∈ [none, some .endOfInput, some .signal]

/-- Whatever calls are going to fail, and whatever happens at the keyboard, the first failure of
the terminal ends the host and is the one that it tells. -/
theorem ends_with_first_failure (options : Options) (faults : Nat → Option Text)
    (breakAt : Option Nat) (interrupted : Bool) (script : List Action) :
    (facing options faults breakAt interrupted).EndsWithFirstFailure faults script where
  run_eq := run_eq_some_iff
  endless := exists_endless
  record r := r.record rfl
  assigned r kept := r.assigned rfl ⟨rfl, rfl⟩ kept
  passed c := c.firstFailure?_eq_none rfl
  ends c failed := .callFailed c (Turn.eq_failed ((c.logged rfl).2.trans failed))
  flushed c failed := (goes _).eq_flushed (c.failure_eq_none rfl) failed
  admits r := r.pairwise_admits rfl
  told r := r.firstFailure? rfl _
  fine r passed readable := r.closed_of_readable rfl passed readable

/-- The text before the cursor moves and the text after it both cannot be written. The first
failure is told, and the last line is not read. -/
theorem ends_with_first_failure_twice :
    let faults : Nat → Option Text := fun i =>
      if i = 1 then some "GONE".toList else if i = 2 then some "STILL GONE".toList else none
    let script : List Action :=
      [.line "10 PRINT 1".toList, .line "20 HOME".toList, .line "30 PRINT 2".toList,
        .line "RUN".toList, .line "PRINT 3".toList]
    let start := facing { color := false } faults none false
    ∃ turns events last rest,
      start.Returns script turns events last rest (.callFailed "GONE".toList) ∧
      (events.map Event.entry).drop 7 =
        [.read "RUN".toList, .history "RUN".toList, .call (.write "1\n"),
          .call (.write "2\n")] ∧
      events.Pairwise Event.Admits := by
  intro faults script start
  have ends := ends_with_first_failure { color := false } faults none false script
  have ran : (start.run 5 script).map
      (fun (last, _) => (last.output.terminal.calls, last.output.terminal.record.toList.drop 7)) =
      some (3, [.read "RUN".toList, .history "RUN".toList, .call (.write "1\n"),
        .call (.write "2\n")]) := by
    decide +kernel
  obtain ⟨⟨last, reason⟩, ran, same⟩ := Option.map_eq_some_iff.mp ran
  obtain ⟨calls, record⟩ := Prod.mk.inj same
  obtain ⟨turns, events, rest, ending, -, returns, -⟩ := ends.run_eq.mp ran
  have first : Event.firstFailure? events = some "GONE".toList := by
    rw [(ends.assigned returns (by decide)).firstFailure?, calls]
    rfl
  obtain rfl := (ends.told returns).mp first
  refine ⟨turns, events, last, rest, returns, ?_, ends.admits returns⟩
  rw [← ends.record returns]
  exact record

end Host

end LineBasic
