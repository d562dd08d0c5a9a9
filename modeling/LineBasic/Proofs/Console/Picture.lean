import LineBasic.Proofs.Console.Ready
import LineBasic.Proofs.Display.Drawing

/-!
# Pictures of the surface

The host asks whether the surface was drawn on just when nothing is left to do, and then draws a
picture of all of it. Commands come in slices, text that the host writes by itself or that was
typed goes to the page alone, and a surface that nobody drew on is the one that was there before.
So by the time the host reads a line, the last picture shows what is on the surface, however many
slices ago it was drawn.

Main statement: `Host.drawing_is_remembered_and_pictured`.
-/

namespace LineBasic

/-- Writing text leaves the surface alone. -/
theorem Screen.surface_run_write (s : Screen) (t : Text) :
    (s.run (Display.write t)).surface = s.surface := by
  induction t generalizing s with
  | nil => rfl
  | cons c t ih => exact ih (s.apply (.character c))

namespace Output

theorem screen_applyAll (o : Output) (commands : List Display.Command) :
    (commands.foldl apply o).screen = o.screen.run commands := by
  induction commands generalizing o with
  | nil => rfl
  | cons command commands ih =>
      exact (ih _).trans (congrArg (Screen.run · commands) (o.screen_apply command))

end Output

namespace Event

/-- Whether the event is a call for a picture. -/
def isPicture : Event → Bool
  | call .picture _ _ => true
  | _ => false

/-- The last call for a picture. -/
def lastPicture? (events : List Event) : Option Event := events.reverse.find? isPicture

theorem lastPicture?_append (events later : List Event) :
    lastPicture? (events ++ later) = (lastPicture? later).or (lastPicture? events) := by
  rw [lastPicture?, List.reverse_append, List.find?_append]
  rfl

theorem lastPicture?_eq_none {events : List Event} (other : ∀ e ∈ events, e.isPicture = false) :
    lastPicture? events = none :=
  List.find?_eq_none.mpr fun e he => by simp [other e (List.mem_reverse.mp he)]

theorem lastPicture?_of_not_call {events : List Event} (quiet : ∀ e ∈ events, e.outcome? = none) :
    lastPicture? events = none := by
  refine lastPicture?_eq_none fun e he => ?_
  have call := quiet e he
  cases e with
  | call => cases call
  | read | complete | history => rfl

theorem lastPicture?_log {purpose : Purpose} (other : purpose ≠ .picture) (t t' : Terminal) :
    lastPicture? (Terminal.log purpose t t') = none := by
  refine lastPicture?_eq_none fun e he => ?_
  obtain ⟨c, failure, rfl⟩ := Terminal.mem_log he
  cases purpose with
  | picture => exact absurd rfl other
  | text | ready => rfl

end Event

namespace Host

variable {h : Host}

theorem screen_flushed (h : Host) : h.flushed.output.screen = h.output.screen.run h.commands := by
  have same : h.passBreak.output.screen = h.output.screen := by
    rw [passBreak]
    split <;> rfl
  rw [flushed, Output.screen_flush, slice_output, Output.screen_applyAll, same]

theorem options_slice (h : Host) : h.slice.1.options = h.options := by
  rw [slice]
  dsimp only
  rw [passBreak]
  split <;> rfl

theorem color_flushed (h : Host) : h.flushed.output.color = h.output.color := by
  obtain ⟨calls, made⟩ := h.exists_made_slice
  rw [flushed, Output.color_flush]
  exact made.color

/-- A call, not a failed one, by which a picture of the surface is drawn. -/
def pictureCall (color : Bool) (s : Surface) : Event :=
  .call .picture (.write (Style.picture color s)) none

theorem pictureCall_draws (color : Bool) (s : Surface) :
    ∃ text, pictureCall color s = .call .picture (.write text) none ∧
      Style.Draws color s.pixels text :=
  ⟨Style.picture color s, rfl, Style.draws_picture color s⟩

/-- The last picture so far was drawn of these pixels, in a turn which is told, and its text shows
them. If there was none, they are those of the start. -/
structure Shows (color : Bool) (start : Grid Color) (turns : List Host) (events : List Event)
    (pixels : Grid Color) : Prop where
  last : ∀ e, Event.lastPicture? events = some e →
    (∃ t ∈ turns, e ∈ t.pictureEvents ∧ e = pictureCall color t.flushed.output.screen.surface ∧
      t.flushed.output.screen.surface.pixels = pixels) ∧
    ∃ text, e = .call .picture (.write text) none ∧ Style.Draws color pixels text
  never : Event.lastPicture? events = none → pixels = start

/-- Without another picture, the last one stays. -/
theorem Shows.append {color : Bool} {start pixels : Grid Color} {turns : List Host}
    {events later : List Event} (shows : Shows color start turns events pixels)
    (none : Event.lastPicture? later = none) (more : List Host) :
    Shows color start (turns ++ more) (events ++ later) pixels where
  last e he := by
    rw [Event.lastPicture?_append, none, Option.none_or] at he
    obtain ⟨⟨t, ht, drawn⟩, pictured⟩ := shows.last e he
    exact ⟨⟨t, List.mem_append_left _ ht, drawn⟩, pictured⟩
  never he := by
    rw [Event.lastPicture?_append, none, Option.none_or] at he
    exact shows.never he

/-- What is known of a host after a course with pictures: unless its surface was drawn on since
it last asked, the last picture shows it. -/
structure Pictured (options : Options) (start : Grid Color) (turns : List Host)
    (events : List Event) (h : Host) : Prop where
  configured : h.options = options
  styled : h.output.color = options.color
  shows : h.output.screen.surface.dirty = false →
    Shows options.color start turns events h.output.screen.surface.pixels

section Turn

variable {options : Options} {start : Grid Color} {turns : List Host} {events later : List Event}
  {h' : Host} {next : Turn}

/-- What leaves the surface alone and draws no picture changes nothing. -/
theorem Pictured.append (known : Pictured options start turns events h)
    (none : Event.lastPicture? later = none) (same : h'.options = h.options)
    (color : h'.output.color = h.output.color)
    (surface : h'.output.screen.surface = h.output.screen.surface) :
    Pictured options start turns (events ++ later) h' where
  configured := same.trans known.configured
  styled := color.trans known.styled
  shows undrawn := by
    rw [surface] at undrawn ⊢
    have shows := (known.shows undrawn).append none []
    rwa [List.append_nil] at shows

theorem Pictured.flushed (known : Pictured options start turns events h) :
    Pictured options start (turns ++ [h]) (events ++ h.textEvents) h.flushed where
  configured := h.options_slice.trans known.configured
  styled := h.color_flushed.trans known.styled
  shows undrawn := by
    rw [screen_flushed] at undrawn ⊢
    have still := mt Screen.dirty_run.mpr (Bool.not_eq_true _ ▸ undrawn)
    rw [not_or, Bool.not_eq_true] at still
    rw [Screen.pixels_run still.2]
    exact (known.shows still.1).append (Event.lastPicture?_log (by decide) _ _) [h]

theorem drawPicture_of_clean (clean : h.output.screen.surface.dirty = false) :
    h.drawPicture = (h, none) := by
  rw [drawPicture]
  split
  · rw [Output.drawPicture, if_neg (Bool.not_eq_true _ ▸ clean)]
  · rfl

/-- A host that draws a picture draws it of the surface as it is, and forgets that it was drawn
on. -/
theorem drawPicture_of_dirty (graphics : h.options.graphics = true)
    (dirty : h.output.screen.surface.dirty = true) :
    h.drawPicture.1.output.screen = h.output.screen.clean ∧
      h.drawPicture.1.options = h.options ∧ h.drawPicture.1.output.color = h.output.color ∧
      (h.drawPicture.1.output.terminal, h.drawPicture.2) =
        h.output.terminal.call (.write (Style.picture h.output.color h.output.screen.surface)) := by
  rw [drawPicture, if_pos graphics, Output.drawPicture, if_pos dirty]
  exact ⟨rfl, rfl, rfl, rfl⟩

/-- Text that the host writes by itself goes to the page alone. -/
theorem printReady_keeps (h : Host) :
    h.printReady.1.options = h.options ∧ h.printReady.1.output.color = h.output.color ∧
      h.printReady.1.output.screen.surface = h.output.screen.surface := by
  rw [printReady]
  split
  · split
    · exact ⟨rfl, rfl, rfl⟩
    · exact ⟨rfl, rfl, Screen.surface_run_write _ _⟩
  · exact ⟨rfl, rfl, rfl⟩

/-- So does a line that was typed. -/
theorem take_keeps (h : Host) (line : Text) :
    (h.take line).options = h.options ∧ (h.take line).output.color = h.output.color ∧
      (h.take line).output.screen.surface = h.output.screen.surface := by
  have surface := Screen.surface_run_write h.output.screen (line ++ ['\n'])
  rw [take]
  split
  · exact ⟨rfl, rfl, surface⟩
  · exact ⟨rfl, rfl, surface⟩

theorem pictureEvents_of_clean (clean : h.flushed.output.screen.surface.dirty = false) :
    h.drawn = h.flushed ∧ h.pictureEvents = [] := by
  have same : h.drawn = h.flushed := congrArg Prod.fst (drawPicture_of_clean clean)
  refine ⟨same, ?_⟩
  rw [pictureEvents, same, Terminal.log, (Terminal.Made.refl _).since_eq]
  rfl

theorem pictureEvents_of_dirty (graphics : h.flushed.options.graphics = true)
    (dirty : h.flushed.output.screen.surface.dirty = true)
    (drew : h.flushed.drawPicture.2 = none) :
    h.pictureEvents = [pictureCall h.flushed.output.color h.flushed.output.screen.surface] := by
  obtain ⟨-, -, -, call⟩ := drawPicture_of_dirty graphics dirty
  have made := h.flushed.output.terminal.made_call
    (.write (Style.picture h.flushed.output.color h.flushed.output.screen.surface))
  have outcome := congrArg Prod.snd call
  rw [← call] at made
  rw [pictureEvents, Terminal.log, drawn, made.since_eq, Event.ofCalls, Event.ofCalls,
    pictureCall, ← drew, outcome]
  rfl

/-- Once the host has drawn its picture, the last picture shows its surface. -/
theorem Pictured.drawn (known : Pictured options start turns events h)
    (graphics : options.graphics = true) (drew : h.flushed.drawPicture.2 = none) :
    Pictured options start (turns ++ [h]) (events ++ h.textEvents ++ h.pictureEvents) h.drawn ∧
      h.drawn.output.screen.surface.dirty = false := by
  have flushed := known.flushed
  cases dirty : h.flushed.output.screen.surface.dirty with
  | false =>
      obtain ⟨same, nothing⟩ := pictureEvents_of_clean dirty
      rw [same, nothing, List.append_nil]
      exact ⟨flushed, dirty⟩
  | true =>
      have asked : h.flushed.options.graphics = true := flushed.configured ▸ graphics
      obtain ⟨clean, same, color, -⟩ := drawPicture_of_dirty asked dirty
      have picture := pictureEvents_of_dirty asked dirty drew
      have last : Event.lastPicture? (events ++ h.textEvents ++ h.pictureEvents) =
          some (pictureCall h.flushed.output.color h.flushed.output.screen.surface) := by
        rw [Event.lastPicture?_append, picture]
        rfl
      rw [Host.drawn, clean]
      refine ⟨⟨same.trans flushed.configured, color.trans flushed.styled, fun _ => ?_⟩, rfl⟩
      refine ⟨fun e he => ?_, fun none => ?_⟩
      · obtain rfl := Option.some.inj (last.symm.trans he)
        rw [clean, flushed.styled]
        exact ⟨⟨h, by simp, by simp [picture, flushed.styled], rfl, rfl⟩, pictureCall_draws _ _⟩
      · rw [last] at none
        cases none

theorem Pictured.turn (known : Pictured options start turns events h)
    (graphics : options.graphics = true) (goes : h.Goes later h' next)
    (passed : next.failure? = none) :
    Pictured options start (turns ++ [h]) (events ++ later) h' ∧
      (next = .prompt → h'.output.screen.surface.dirty = false) := by
  cases goes with
  | textFailed | pictureFailed | readyFailed => cases passed
  | again => exact ⟨known.flushed, nofun⟩
  | prompt text activity drew =>
      obtain ⟨drawn, clean⟩ := known.drawn graphics drew
      obtain ⟨same, color, surface⟩ := h.drawn.printReady_keeps
      rw [← List.append_assoc, ← List.append_assoc]
      refine ⟨drawn.append (Event.lastPicture?_log (by decide) _ _) same color surface, fun _ => ?_⟩
      rw [readied, surface]
      exact clean

end Turn

theorem Course.pictured {start h : Host} {script rest : List Action} {turns : List Host}
    {events : List Event} (c : start.Course script turns events h rest)
    (graphics : start.options.graphics = true)
    (new : start.output.color = start.options.color) :
    Pictured start.options start.output.screen.surface.pixels turns events h := by
  induction c with
  | start => exact ⟨rfl, new, fun _ => ⟨nofun, fun _ => rfl⟩⟩
  | again c turn ih => exact (ih.turn graphics (goes _) (by rw [turn]; rfl)).1
  | @read turns events h rest line c turn read ih =>
      have turned := (ih.turn graphics h.goes (by rw [turn]; rfl)).1
      have looked : Pictured _ _ (turns ++ [h]) _ (h.turn.1.reading rest).1 :=
        turned.append (Event.lastPicture?_of_not_call (outcome?_ofReading h.turn.1.offer rest)) rfl
          rfl rfl
      obtain ⟨same, color, surface⟩ := (h.turn.1.reading rest).1.take_keeps line
      exact looked.append (Event.lastPicture?_of_not_call (outcome?_takeEvents _ line)) same color
        surface

/-- A screen never forgets that its surface was drawn on before it is asked, and a host with
pictures asks whenever it is about to read a line. So whenever it reads one, the events so far are
those on the record, and the last picture among them, if there is any, was drawn of the pixels as
they are now, and it shows them. A host only gets there if no call failed. -/
theorem drawing_is_remembered_and_pictured :
    (∀ columns rows uses, (Screen.empty columns rows).RemembersDrawing uses) ∧
    ∀ (options : Options) (faults : Nat → Option Text) (breakAt : Option Nat)
      (interrupted : Bool) (script rest : List Action) (turns : List Host) (events : List Event)
      (h : Host), options.graphics = true →
      (facing options faults breakAt interrupted).Course script turns events h rest →
      h.turn.2 = .prompt →
        h.turn.1.output.terminal.record.toList = (events ++ h.turnEvents).map Event.entry ∧
        Shows options.color (Screen.empty options.columns options.rows).surface.pixels
          (turns ++ [h]) (events ++ h.turnEvents) h.turn.1.output.screen.surface.pixels := by
  refine ⟨Screen.remembersDrawing, ?_⟩
  intro options faults breakAt interrupted script rest turns events h graphics c prompt
  constructor
  · rw [(c.logged rfl).1.record, c.record rfl, List.map_append]
    rfl
  · obtain ⟨known, clean⟩ := (c.pictured graphics rfl).turn graphics h.goes (by rw [prompt]; rfl)
    exact known.shows (clean prompt)

/-- A point is drawn, and after that a number is printed. The picture of the point is still the
one of the surface. -/
theorem drawing_is_remembered_and_pictured_point :
    let options : Options := { columns := 1, rows := 1, graphics := true, color := false }
    let script : List Action := [.line "PLOT 1,1".toList, .line "PRINT 7".toList]
    ∃ turns events h e,
      (facing options (fun _ => none) none false).Course script turns events h [] ∧
      h.turn.2 = .prompt ∧ Event.lastPicture? events = some e ∧
      Event.lastPicture? h.turnEvents = none ∧
      h.turn.1.output.screen.surface.pixels.get? ⟨1, 1⟩ = some 14 ∧
      (∃ t ∈ turns ++ [h], e ∈ t.pictureEvents ∧
        t.flushed.output.screen.surface.pixels = h.turn.1.output.screen.surface.pixels) ∧
      ∃ text, e = .call .picture (.write text) none ∧
        Style.Draws false h.turn.1.output.screen.surface.pixels text := by
  intro options script
  have begun : (facing options (fun _ => none) none false).Course script [] [] _ _ := .start
  have plotting := begun.read (by decide +kernel)
    (show _ = Input.line "PLOT 1,1".toList by decide +kernel)
  have printing := plotting.read (by decide +kernel)
    (show _ = Input.line "PRINT 7".toList by decide +kernel)
  obtain ⟨turns, events, h, c, prompt, drawn, none, pixel⟩ : ∃ turns events h,
      (facing options (fun _ => none) none false).Course script turns events h [] ∧
        h.turn.2 = .prompt ∧ (Event.lastPicture? events).isSome = true ∧
        Event.lastPicture? h.turnEvents = none ∧
        h.turn.1.output.screen.surface.pixels.get? ⟨1, 1⟩ = some 14 :=
    ⟨_, _, _, printing, by decide +kernel, by decide +kernel, by decide +kernel,
      by decide +kernel⟩
  obtain ⟨e, last⟩ := Option.isSome_iff_exists.mp drawn
  obtain ⟨-, shows⟩ := drawing_is_remembered_and_pictured.2 options (fun _ => .none) .none false
    script [] turns events h rfl c prompt
  obtain ⟨⟨t, ht, picture, -, pixels⟩, pictured⟩ :=
    shows.last e (by rw [Event.lastPicture?_append, none, Option.none_or, last])
  exact ⟨turns, events, h, e, c, prompt, last, none, pixel, ⟨t, ht, picture, pixels⟩, pictured⟩

end Host

end LineBasic
