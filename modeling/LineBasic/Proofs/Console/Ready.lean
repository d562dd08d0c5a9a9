import LineBasic.Proofs.Console.Failure
import Mathlib.Data.List.DropRight

/-!
# Telling that the host is ready

A host remembers that there was output if text is held back when a slice is over. Text which a
slice has written before that, to move the cursor, does not count. So the host may read a line
although the text that it wrote was not followed by a `READY.`: just when it wrote text to move
the cursor, and no slice left any text behind, since the last time that it printed `READY.`

The commands of a slice tell both. Whatever follows the last command that moves the cursor or
clears the screen is left behind, and a move writes what the commands before it left behind. The
state of the host is brought into these terms turn by turn (`Known.turn`), and from that for a
whole course (`Course.known`).

Main statement: `Host.ready_follows_text_iff`.
-/

namespace LineBasic

namespace Display

/-- Whether text that is held back stays so. -/
def Command.keepsText : Command → Bool
  | .clearScreen | .moveTo _ _ => false
  | _ => true

/-- Whether commands leave text behind that is not written yet. -/
def LeavesText (commands : List Command) : Prop :=
  ∃ before c after, commands = before ++ .character c :: after ∧
    ∀ d ∈ after, d.keepsText = true

/-- Whether the cursor is moved while text is held back. -/
def MovesOverText (commands : List Command) : Prop :=
  ∃ before column row after, commands = before ++ .moveTo column row :: after ∧ LeavesText before

theorem not_leavesText_nil : ¬LeavesText [] := by
  rintro ⟨before, c, after, whole, -⟩
  exact absurd whole (List.append_ne_nil_of_right_ne_nil before (List.cons_ne_nil _ _)).symm

theorem leavesText_concat (commands : List Command) (d : Command) :
    LeavesText (commands ++ [d]) ↔
      (∃ c, d = .character c) ∨ d.keepsText = true ∧ LeavesText commands := by
  constructor
  · rintro ⟨before, c, after, whole, kept⟩
    rcases List.eq_nil_or_concat after with rfl | ⟨after, last, rfl⟩
    · obtain ⟨-, same⟩ := List.append_inj' whole rfl
      exact .inl ⟨c, (List.cons.inj same).1⟩
    · rw [List.concat_eq_append, ← List.cons_append, ← List.append_assoc] at whole
      obtain ⟨rfl, same⟩ := List.append_inj' whole rfl
      obtain rfl := (List.cons.inj same).1
      rw [List.concat_eq_append] at kept
      exact .inr ⟨kept d (by simp), before, c, after, rfl, fun e he => kept e (by simp [he])⟩
  · rintro (⟨c, rfl⟩ | ⟨keeps, before, c, after, rfl, kept⟩)
    · exact ⟨commands, c, [], rfl, by simp⟩
    · refine ⟨before, c, after ++ [d], by simp, fun e he => ?_⟩
      rcases List.mem_append.mp he with he | he
      · exact kept e he
      · rwa [List.mem_singleton.mp he]

theorem not_movesOverText_nil : ¬MovesOverText [] := by
  rintro ⟨before, column, row, after, whole, -⟩
  exact absurd whole (List.append_ne_nil_of_right_ne_nil before (List.cons_ne_nil _ _)).symm

theorem movesOverText_concat (commands : List Command) (d : Command) :
    MovesOverText (commands ++ [d]) ↔
      MovesOverText commands ∨ (∃ column row, d = .moveTo column row) ∧ LeavesText commands := by
  constructor
  · rintro ⟨before, column, row, after, whole, left⟩
    rcases List.eq_nil_or_concat after with rfl | ⟨after, last, rfl⟩
    · obtain ⟨rfl, same⟩ := List.append_inj' whole rfl
      exact .inr ⟨⟨column, row, (List.cons.inj same).1⟩, left⟩
    · rw [List.concat_eq_append, ← List.cons_append, ← List.append_assoc] at whole
      obtain ⟨rfl, -⟩ := List.append_inj' whole rfl
      exact .inl ⟨before, column, row, after, rfl, left⟩
  · rintro (⟨before, column, row, after, rfl, left⟩ | ⟨⟨column, row, rfl⟩, left⟩)
    · exact ⟨before, column, row, after ++ [d], by simp, left⟩
    · exact ⟨commands, column, row, [], rfl, left⟩

end Display

namespace Output

/-- Whether a call writes text. -/
def writesText : Call → Bool
  | .write text => !text.isEmpty
  | _ => false

theorem shown_ne_empty (color : Bool) (page : Page) (c : Char) : shown color page c ≠ "" := by
  have plain : c.toString ≠ "" := by simp [← String.toList_inj]
  have styled : styled color page c ≠ "" := by
    rw [Output.styled]
    split
    · rw [Style.colored]
      exact fun nothing => absurd (String.append_eq_empty_iff.mp nothing).2 (by decide)
    · exact plain
  rw [shown]
  split
  · exact plain
  · split
    · exact fun nothing => absurd (String.append_eq_empty_iff.mp nothing).2 (by decide)
    · exact styled

theorem writesText_moves (fromRow column row : Nat) :
    (moves fromRow column row).any writesText = false := by
  rw [moves]
  split <;> split <;> split <;> rfl

theorem writesText_callsToFlush (o : Output) :
    o.callsToFlush.any writesText = !o.held.isEmpty := by
  rw [callsToFlush]
  split <;> simp_all [writesText]

theorem heldAfter_ne_empty_iff (o : Output) (d : Display.Command) :
    o.heldAfter d ≠ "" ↔ (∃ c, d = .character c) ∨ d.keepsText = true ∧ o.held ≠ "" := by
  cases d with
  | character c =>
      have written := shown_ne_empty o.color (o.screen.page.write c) c
      simp [heldAfter_character, String.append_eq_empty_iff, written]
  | clearScreen | moveTo =>
      exact ⟨fun left => absurd rfl left, fun | .inr ⟨kept, _⟩ => nomatch kept⟩
  | _ => exact ⟨fun left => .inr ⟨rfl, left⟩, fun | .inr ⟨_, left⟩ => left⟩

variable {o : Output}

@[simp] theorem held_drawPicture (o : Output) : o.drawPicture.1.held = o.held := by
  rw [drawPicture]
  split <;> rfl

/-- Text is held back just if the commands left it behind. -/
theorem held_applyAll (empty : o.held = "") (commands : List Display.Command) :
    (commands.foldl apply o).held ≠ "" ↔ Display.LeavesText commands := by
  induction commands using List.reverseRecOn with
  | nil => simp [empty, Display.not_leavesText_nil]
  | append_singleton commands d ih =>
      rw [List.foldl_concat, held_apply, heldAfter_ne_empty_iff, ih,
        Display.leavesText_concat]

/-- The calls for a command write text just if it moves the cursor over text. -/
theorem writesText_callsFor (o : Output) (d : Display.Command) :
    (o.callsFor d).any writesText = true ↔
      (∃ column row, d = .moveTo column row) ∧ o.held ≠ "" := by
  cases d with
  | moveTo column row =>
      rw [callsFor, List.any_cons, writesText_moves]
      simp [writesText]
  | _ => simp [callsFor, writesText]

/-- If no call fails, commands have text written just if they move the cursor over it. -/
theorem exists_made_writesText (empty : o.held = "") (commands : List Display.Command) :
    ∃ made, Made o (commands.foldl apply o) made ∧
      (o.terminal.fault? made.length = none →
        (made.any writesText = true ↔ Display.MovesOverText commands)) := by
  induction commands using List.reverseRecOn with
  | nil => exact ⟨[], .refl o, fun _ => by simp [Display.not_movesOverText_nil]⟩
  | append_singleton commands d ih =>
      obtain ⟨made₁, first, writes⟩ := ih
      obtain ⟨made₂, -, second, whole⟩ := (commands.foldl apply o).exists_made_apply d
      rw [List.foldl_concat]
      refine ⟨made₁ ++ made₂, first.trans second, fun passed => ?_⟩
      rw [first.terminal.fault?_append, Option.or_eq_none_iff] at passed
      rw [List.any_append, Bool.or_eq_true, writes passed.1, whole passed.2,
        writesText_callsFor, held_applyAll empty, Display.movesOverText_concat]

end Output

namespace Event

/-- Whether the event is a call by which the session has text written. -/
def showsText : Event → Bool
  | call .text c _ => Output.writesText c
  | _ => false

/-- Whether the event is the call by which the host prints that it is ready. -/
def isReady : Event → Bool
  | call .ready _ _ => true
  | _ => false

/-- Whether the host prints that it is ready after every text. -/
def Announced : List Event → Prop
  | [] => True
  | e :: later => (e.showsText = true → later.any isReady = true) ∧ Announced later

instance : (events : List Event) → Decidable (Announced events)
  | [] => isTrue trivial
  | _ :: later =>
    have := instDecidableAnnounced later
    inferInstanceAs (Decidable (_ ∧ _))

theorem announced_append (events later : List Event) :
    Announced (events ++ later) ↔
      Announced later ∧ (Announced events ∨ later.any isReady = true) := by
  induction events with
  | nil => simp [Announced]
  | cons e events ih =>
      rw [List.cons_append, Announced, Announced, ih, List.any_append, Bool.or_eq_true]
      tauto

theorem announced_iff {events : List Event} (unready : events.any isReady = false) :
    Announced events ↔ events.any showsText = false := by
  induction events with
  | nil => simp [Announced]
  | cons e events ih =>
      rw [List.any_cons, Bool.or_eq_false_iff] at unready
      rw [Announced, ih unready.2, unready.2, List.any_cons, Bool.or_eq_false_iff]
      simp

theorem announced_of_silent {events : List Event} (silent : events.any showsText = false) :
    Announced events := by
  induction events with
  | nil => trivial
  | cons e events ih =>
      rw [List.any_cons, Bool.or_eq_false_iff] at silent
      exact ⟨fun shows => absurd shows (by simp [silent.1]), ih silent.2⟩

/-- If the host prints that it is ready only when there is no more text, then it does so after
every text, if at all. -/
theorem announced_append_iff {events later : List Event} (unready : events.any isReady = false)
    (silent : later.any showsText = false) :
    Announced (events ++ later) ↔
      (events ++ later).any isReady = true ∨ (events ++ later).any showsText = false := by
  rw [announced_append, announced_iff unready, List.any_append, List.any_append, unready, silent,
    Bool.false_or, Bool.or_false, or_comm]
  exact and_iff_right (announced_of_silent silent)

theorem any_showsText_ofCalls (faults : Nat → Option Text) (first : Nat) (calls : List Call) :
    (ofCalls .text faults first calls).any showsText = calls.any Output.writesText := by
  induction calls generalizing first with
  | nil => rfl
  | cons c calls ih => exact congrArg (Output.writesText c || ·) (ih _)

theorem any_of_not_call {events : List Event} (quiet : ∀ e ∈ events, e.outcome? = none) :
    events.any showsText = false ∧ events.any isReady = false := by
  refine ⟨List.any_eq_false.mpr fun e he => ?_, List.any_eq_false.mpr fun e he => ?_⟩ <;>
    · have call := quiet e he
      cases e with
      | call => cases call
      | read | complete | history => exact Bool.false_ne_true

theorem any_showsText_log {purpose : Purpose} (other : purpose ≠ .text) (t t' : Terminal) :
    (Terminal.log purpose t t').any showsText = false := by
  refine List.any_eq_false.mpr fun e he => ?_
  obtain ⟨c, failure, rfl⟩ := Terminal.mem_log he
  cases purpose with
  | text => exact absurd rfl other
  | picture | ready => simp [showsText]

theorem any_isReady_log {purpose : Purpose} (other : purpose ≠ .ready) (t t' : Terminal) :
    (Terminal.log purpose t t').any isReady = false := by
  refine List.any_eq_false.mpr fun e he => ?_
  obtain ⟨c, failure, rfl⟩ := Terminal.mem_log he
  cases purpose with
  | ready => exact absurd rfl other
  | picture | text => simp [isReady]

end Event

namespace Host

/-- What the session commands in the slice of a turn. -/
def commands (h : Host) : List Display.Command :=
  (h.passBreak.session.execute h.options.cycles).output.toList

/-- Whether the host prints in a turn that it is ready. -/
def tellsReady (h : Host) : Bool := h.turnEvents.any Event.isReady

/-- The turns since the last one in which the host printed that it is ready. -/
def sinceReady (turns : List Host) : List Host := turns.rtakeWhile fun t => !t.tellsReady

theorem sinceReady_of_told {h : Host} (told : h.tellsReady = true) (turns : List Host) :
    sinceReady (turns ++ [h]) = [] :=
  List.rtakeWhile_concat_neg _ _ h (by simp [told])

theorem sinceReady_of_silent {h : Host} (silent : h.tellsReady = false) (turns : List Host) :
    sinceReady (turns ++ [h]) = sinceReady turns ++ [h] :=
  List.rtakeWhile_concat_pos _ _ h (by simp [silent])

section Slice

variable {h : Host}

theorem slice_output (h : Host) :
    h.slice.1.output = h.commands.foldl Output.apply h.passBreak.output := by
  rw [slice, commands, Array.foldl_toList]
  have options : h.passBreak.options = h.options := by
    rw [passBreak]
    split <;> rfl
  rw [options]

theorem held_passBreak (h : Host) : h.passBreak.output.held = h.output.held := by
  rw [passBreak]
  split <;> rfl

theorem announce_passBreak (h : Host) : h.passBreak.announce = h.announce := by
  rw [passBreak]
  split <;> rfl

/-- If no call for text fails in a slice, then it has text written if it moves the cursor over
some, or leaves some behind. -/
theorem any_showsText_textEvents (fine : h.output.failure = none) (empty : h.output.held = "")
    (passed : h.slice.1.output.flush.2 = none) :
    h.textEvents.any Event.showsText = true ↔
      Display.MovesOverText h.commands ∨ Display.LeavesText h.commands := by
  have empty' : h.passBreak.output.held = "" := h.held_passBreak.trans empty
  obtain ⟨made, all, writes⟩ := Output.exists_made_writesText empty' h.commands
  rw [← slice_output] at all
  have sliced := h.made_passBreak.trans all
  obtain ⟨flushed, told⟩ := h.slice.1.output.made_flush
  rw [told, sliced.failure, fine, Option.none_or, Option.or_eq_none_iff,
    h.made_passBreak.terminal.fault?_append, Option.or_eq_none_iff] at passed
  have left := Output.held_applyAll empty' h.commands
  rw [← slice_output] at left
  have whole : h.output.terminal.Made h.flushed.output.terminal _ := sliced.terminal.trans flushed
  rw [textEvents, Terminal.log, whole.since_eq,
    Event.any_showsText_ofCalls, List.any_append, Bool.or_eq_true, List.nil_append,
    writes passed.1.2, Output.writesText_callsToFlush, ← left]
  simp

theorem announce_slice (empty : h.output.held = "") :
    h.slice.1.announce = true ↔ h.announce = true ∨ Display.LeavesText h.commands := by
  have left := Output.held_applyAll (h.held_passBreak.trans empty) h.commands
  rw [← slice_output] at left
  have announce : h.slice.1.announce = (h.announce || !h.slice.1.output.held.isEmpty) := by
    rw [← announce_passBreak h]
    rfl
  rw [announce, Bool.or_eq_true, ← left]
  simp

theorem announce_drawPicture (h : Host) : h.drawPicture.1.announce = h.announce := by
  rw [drawPicture]
  split <;> rfl

theorem announce_printReady (h : Host) : h.printReady.1.announce = false := by
  rw [printReady]
  split
  · split <;> rfl
  · next silent => exact Bool.eq_false_iff.mpr silent

theorem held_drawPicture (h : Host) : h.drawPicture.1.output.held = h.output.held := by
  rw [drawPicture]
  split
  · exact h.output.held_drawPicture
  · rfl

theorem held_printReady (h : Host) : h.printReady.1.output.held = h.output.held := by
  rw [printReady]
  split
  · split <;> rfl
  · rfl

theorem announce_take (h : Host) (line : Text) : (h.take line).announce = h.announce := by
  rw [take]
  split <;> rfl

theorem held_take (h : Host) (line : Text) : (h.take line).output.held = h.output.held := by
  rw [take]
  split <;> rfl

theorem announce_drawn (empty : h.output.held = "") :
    h.drawn.announce = true ↔ h.announce = true ∨ Display.LeavesText h.commands := by
  rw [drawn, announce_drawPicture]
  exact announce_slice empty

theorem any_isReady_readyEvents (h : Host) :
    h.readyEvents.any Event.isReady = h.drawn.announce := by
  rw [readyEvents, Terminal.log, readied]
  cases announce : h.drawn.announce with
  | false =>
      rw [printReady_of_silent announce, (Terminal.Made.refl _).since_eq]
      rfl
  | true =>
      have made := h.drawn.output.terminal.made_call (.print (Style.bold ready ++ "\n"))
      rw [← printReady_of_announce announce] at made
      rw [made.since_eq]
      rfl

end Slice

namespace Goes

variable {h h' : Host} {events : List Event} {next : Turn}

theorem held (goes : h.Goes events h' next) : h'.output.held = "" := by
  have flushed : h.flushed.output.held = "" := h.slice.1.output.held_flush
  have drawn : h.drawn.output.held = "" := h.flushed.held_drawPicture.trans flushed
  cases goes with
  | textFailed | again => exact flushed
  | pictureFailed => exact drawn
  | readyFailed | prompt => exact h.drawn.held_printReady.trans drawn

/-- In a turn in which nothing fails, text is written if the cursor is moved over some, or if
some is left behind. -/
theorem showsText (goes : h.Goes events h' next) (passed : next.failure? = none)
    (fine : h.output.failure = none) (empty : h.output.held = "") :
    events.any Event.showsText = true ↔
      Display.MovesOverText h.commands ∨ Display.LeavesText h.commands := by
  have picture : h.pictureEvents.any Event.showsText = false :=
    Event.any_showsText_log (by decide) _ _
  have ready : h.readyEvents.any Event.showsText = false :=
    Event.any_showsText_log (by decide) _ _
  cases goes with
  | textFailed | pictureFailed | readyFailed => cases passed
  | again text => exact any_showsText_textEvents fine empty text
  | prompt text =>
      rw [List.any_append, List.any_append, picture, ready, Bool.or_false, Bool.or_false]
      exact any_showsText_textEvents fine empty text

/-- The host prints that it is ready, if it comes to that, when text was left behind. -/
theorem isReady (goes : h.Goes events h' next) (passed : next.failure? = none)
    (empty : h.output.held = "") :
    events.any Event.isReady = true ↔
      next = .prompt ∧ (h.announce = true ∨ Display.LeavesText h.commands) := by
  have text : h.textEvents.any Event.isReady = false := Event.any_isReady_log (by decide) _ _
  have picture : h.pictureEvents.any Event.isReady = false :=
    Event.any_isReady_log (by decide) _ _
  cases goes with
  | textFailed | pictureFailed | readyFailed => cases passed
  | again => simp [text]
  | prompt =>
      rw [List.any_append, List.any_append, text, picture, any_isReady_readyEvents,
        Bool.or_false, Bool.false_or, announce_drawn empty]
      simp

/-- What was left behind is remembered until the host prints that it is ready. -/
theorem announce (goes : h.Goes events h' next) (passed : next.failure? = none)
    (empty : h.output.held = "") :
    h'.announce = true ↔
      events.any Event.isReady = false ∧
        (h.announce = true ∨ Display.LeavesText h.commands) := by
  rw [← Bool.not_eq_true, goes.isReady passed empty]
  cases goes with
  | textFailed | pictureFailed | readyFailed => cases passed
  | again =>
      rw [show h.flushed.announce = h.slice.1.announce from rfl, announce_slice empty]
      simp
  | prompt =>
      rw [readied, announce_printReady]
      simp

theorem announced (goes : h.Goes events h' next) (passed : next.failure? = none)
    (fine : h.output.failure = none) (empty : h.output.held = "") :
    Event.Announced events ↔
      events.any Event.isReady = true ∨
        ¬Display.MovesOverText h.commands ∧ ¬Display.LeavesText h.commands := by
  rw [← not_or, ← goes.showsText passed fine empty, Bool.not_eq_true]
  have text : h.textEvents.any Event.isReady = false := Event.any_isReady_log (by decide) _ _
  have picture : h.pictureEvents.any Event.isReady = false :=
    Event.any_isReady_log (by decide) _ _
  cases goes with
  | textFailed | pictureFailed | readyFailed => cases passed
  | again => simp [Event.announced_iff text, text]
  | prompt =>
      refine Event.announced_append_iff ?_ (Event.any_showsText_log (by decide) _ _)
      rw [List.any_append, text, picture]
      rfl

end Goes

/-- What is known of a host after a course: it holds back no text, and whether it has to print
that it is ready is told by the text that the turns left behind since it last did. -/
structure Known (turns : List Host) (events : List Event) (h : Host) : Prop where
  held : h.output.held = ""
  failure : h.output.failure = none
  announce : h.announce = true ↔
    (∀ t ∈ turns, t.tellsReady = false) ∨
      ∃ t ∈ sinceReady turns, Display.LeavesText t.commands
  announced : Event.Announced events ↔
    ∀ t ∈ sinceReady turns,
      ¬Display.MovesOverText t.commands ∧ ¬Display.LeavesText t.commands

namespace Known

variable {h h' : Host} {turns : List Host} {events later : List Event}

theorem turn (known : Known turns events h) (passed : h.turn.2.failure? = none) :
    Known (turns ++ [h]) (events ++ h.turnEvents) h.turn.1 := by
  have announce := h.goes.announce passed known.held
  have announced := h.goes.announced passed known.failure known.held
  have all := Event.announced_append events h.turnEvents
  rw [← tellsReady] at announce announced all
  rw [known.announce] at announce
  rw [announced, known.announced] at all
  cases told : h.tellsReady with
  | false =>
      refine ⟨h.goes.held, h.goes.failure_eq_none, announce.trans ?_, all.trans ?_⟩
      · rw [sinceReady_of_silent told, List.forall_mem_append, List.forall_mem_singleton]
        simp only [told, and_true, true_and, or_assoc, List.mem_append, List.mem_singleton,
          or_and_right, exists_or, exists_eq_left]
      · rw [sinceReady_of_silent told, List.forall_mem_append, List.forall_mem_singleton,
          and_comm]
        simp only [told, Bool.false_eq_true, or_false, false_or]
  | true =>
      refine ⟨h.goes.held, h.goes.failure_eq_none, announce.trans ?_, all.trans ?_⟩
      · simp [sinceReady_of_told told, told]
      · simp [sinceReady_of_told told, told]

/-- What is no call changes nothing. -/
theorem append (known : Known turns events h) (quiet : ∀ e ∈ later, e.outcome? = none)
    (output : h'.output.held = h.output.held ∧ h'.output.failure = h.output.failure)
    (announce : h'.announce = h.announce) : Known turns (events ++ later) h' := by
  obtain ⟨silent, unready⟩ := Event.any_of_not_call quiet
  refine ⟨output.1.trans known.held, output.2.trans known.failure, ?_, ?_⟩
  · rw [announce, known.announce]
  · rw [Event.announced_append, known.announced, unready]
    simp [Event.announced_of_silent silent]

end Known

theorem Course.known {start h : Host} {script rest : List Action} {turns : List Host}
    {events : List Event} (c : start.Course script turns events h rest)
    (new : Known [] [] start) : Known turns events h := by
  induction c with
  | start => exact new
  | again c turn ih => exact ih.turn (by rw [turn]; rfl)
  | @read turns events h rest line c turn read ih =>
      have turned := ih.turn (by rw [turn]; rfl)
      have looked : Known (turns ++ [h]) _ (h.turn.1.reading rest).1 :=
        turned.append (outcome?_ofReading h.turn.1.offer rest) ⟨rfl, rfl⟩ rfl
      exact looked.append (outcome?_takeEvents _ line) ⟨held_take _ line, failure_take _ line⟩
        (announce_take _ line)

/-- Whenever the host reads a line, it has just printed that it is ready if it never did so
before, or if a slice left text behind since it last did. The events so far are those on the
record, and every text among them was followed by `READY.`, unless it was not printed just now
and since it last was a slice moved the cursor over text. -/
theorem ready_follows_text_iff (options : Options) (faults : Nat → Option Text)
    (breakAt : Option Nat) (interrupted : Bool) {script rest : List Action} {turns : List Host}
    {events : List Event} {h : Host}
    (c : (facing options faults breakAt interrupted).Course script turns events h rest)
    (prompt : h.turn.2 = .prompt) :
    h.turn.1.output.terminal.record.toList = (events ++ h.turnEvents).map Event.entry ∧
      (h.tellsReady = true ↔
        (∀ t ∈ turns, t.tellsReady = false) ∨
          ∃ t ∈ sinceReady turns ++ [h], Display.LeavesText t.commands) ∧
      (Event.Announced (events ++ h.turnEvents) ↔
        h.tellsReady = true ∨
          ∀ t ∈ sinceReady turns ++ [h], ¬Display.MovesOverText t.commands) := by
  have new : Known [] [] (facing options faults breakAt interrupted) := by
    refine ⟨rfl, rfl, ?_, ?_⟩
    · simp [facing, initial]
    · simp [Event.Announced, sinceReady]
  have known := c.known new
  have passed : h.turn.2.failure? = none := by rw [prompt]; rfl
  have told : h.tellsReady = true ↔
      (∀ t ∈ turns, t.tellsReady = false) ∨
        ∃ t ∈ sinceReady turns ++ [h], Display.LeavesText t.commands := by
    rw [tellsReady, h.goes.isReady passed known.held, known.announce, and_iff_right prompt,
      or_assoc]
    simp only [List.mem_append, List.mem_singleton, or_and_right, exists_or, exists_eq_left]
  refine ⟨?_, told, (known.turn passed).announced.trans ?_⟩
  · rw [(c.logged rfl).1.record, c.record rfl, List.map_append]
    rfl
  · cases ready : h.tellsReady with
    | true => simp [sinceReady_of_told ready]
    | false =>
        have settled : ∀ t ∈ sinceReady turns ++ [h], ¬Display.LeavesText t.commands := by
          intro t ht left
          rw [told.mpr (.inr ⟨t, ht, left⟩)] at ready
          cases ready
        rw [sinceReady_of_silent ready, forall₂_and, and_iff_left settled]
        simp

/-- A program prints a line and moves the cursor to the upper left corner. After that the host
reads a line, with no `READY.` in between. -/
theorem exists_homed :
    ∃ script turns events h,
      (facing { color := false } (fun _ => none) none false).Course script turns events h [] ∧
        h.turn.2 = .prompt ∧ h.tellsReady = false ∧
          ¬Event.Announced (events ++ h.turnEvents) := by
  have begun : (facing { color := false } (fun _ => none) none false).Course
      [.line "10 PRINT 1".toList, .line "20 HOME".toList, .line "RUN".toList] [] [] _ _ := .start
  have printing := begun.read (by decide +kernel)
    (show _ = Input.line "10 PRINT 1".toList by decide +kernel)
  have homing := printing.read (by decide +kernel)
    (show _ = Input.line "20 HOME".toList by decide +kernel)
  have run := homing.read (by decide +kernel) (show _ = Input.line "RUN".toList by decide +kernel)
  exact ⟨_, _, _, _, run, by decide +kernel, by decide +kernel, by decide +kernel⟩

theorem not_ready_follows_text :
    ¬∀ (options : Options) (faults : Nat → Option Text) (breakAt : Option Nat)
        (interrupted : Bool) (script rest : List Action) (turns : List Host)
        (events : List Event) (h : Host),
        (facing options faults breakAt interrupted).Course script turns events h rest →
          h.turn.2 = .prompt → Event.Announced (events ++ h.turnEvents) := by
  intro claim
  obtain ⟨script, turns, events, h, c, prompt, -, unannounced⟩ := exists_homed
  exact unannounced (claim _ _ _ _ _ _ _ _ _ c prompt)

theorem ready_follows_text_iff_homed :
    ∃ script turns events h,
      (facing { color := false } (fun _ => none) none false).Course script turns events h [] ∧
        h.turn.2 = .prompt ∧ h.tellsReady = false ∧
          ∃ t ∈ sinceReady turns ++ [h], Display.MovesOverText t.commands := by
  obtain ⟨script, turns, events, h, c, prompt, silent, unannounced⟩ := exists_homed
  have announced :=
    (ready_follows_text_iff { color := false } (fun _ => none) none false c prompt).2.2
  refine ⟨script, turns, events, h, c, prompt, silent, ?_⟩
  by_contra nowhere
  exact unannounced (announced.mpr (.inr fun t ht moves => nowhere ⟨t, ht, moves⟩))

end Host

end LineBasic
