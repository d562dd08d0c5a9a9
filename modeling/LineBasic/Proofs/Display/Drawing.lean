import LineBasic.Proofs.Display.Outline
import LineBasic.Proofs.Display.Painting
import Mathlib.Data.List.Induction

/-!
# What was drawn

A command draws on the surface if it clears it or colors some point of it. Every drawing command
but the fill paints spans, and colors those of their points that lie on the surface, in whatever
color they were before. A fill colors the region of its point, unless that has the color already.

The surface is remembered as drawn on from the first command that draws until this is asked. So
as long as it is not, no pixel has changed.

Main statement: `Screen.remembersDrawing`.
-/

namespace LineBasic

namespace Grid

variable {α : Type}

/-- A grid is told by its size and what its points read. -/
theorem ext_get? {g g' : Grid α} (width : g.width = g'.width) (height : g.height = g'.height)
    (same : ∀ p, g.get? p = g'.get? p) : g = g' := by
  obtain ⟨w, h, cells, size⟩ := g
  obtain ⟨w', h', cells', size'⟩ := g'
  obtain rfl : w = w' := width
  obtain rfl : h = h' := height
  suffices cells = cells' by
    subst this
    rfl
  refine Array.ext (size.trans size'.symm) fun i hi hi' => ?_
  have total : i < h * w := by rwa [size, Nat.mul_comm] at hi
  have wide : 0 < w := Nat.pos_of_mul_pos_left (Nat.zero_lt_of_lt total)
  have column := Nat.mod_lt i wide
  have row := Nat.div_lt_of_lt_mul (Nat.mul_comm h w ▸ total)
  have place : (i / w) * w + i % w = i := Nat.div_add_mod' i w
  have inside (cells : Array α) (size : cells.size = w * h) :
      (⟨w, h, cells, size⟩ : Grid α).Contains ⟨(i % w : Nat), (i / w : Nat)⟩ :=
    ⟨Int.natCast_nonneg _, Int.ofNat_lt.mpr column, Int.natCast_nonneg _, Int.ofNat_lt.mpr row⟩
  have cell := same ⟨(i % w : Nat), (i / w : Nat)⟩
  rw [get?_eq_getElem? (inside cells size), get?_eq_getElem? (inside cells' size')] at cell
  simpa only [index, Int.toNat_natCast, place, Array.getElem?_eq_getElem hi,
    Array.getElem?_eq_getElem hi', Option.some.injEq] using cell

/-- Some span touches the grid if they cover some point of it. -/
theorem any_touches_iff {g : Grid α} {spans : List Span} :
    spans.any g.touches = true ↔ ∃ p, Span.Covers spans p ∧ g.Contains p := by
  rw [List.any_eq_true]
  constructor
  · rintro ⟨s, hs, touched⟩
    obtain ⟨p, within, inside⟩ := touches_iff.mp touched
    exact ⟨p, ⟨s, hs, within⟩, inside⟩
  · rintro ⟨p, ⟨s, hs, within⟩, inside⟩
    exact ⟨s, hs, touches_iff.mpr ⟨p, within, inside⟩⟩

end Grid

namespace Screen

variable {s : Screen} {command : Display.Command} {spans : List Span} {color : Color} {p : Point}

/-- The spans that a command paints, and the color in which it does so. -/
def stroke? (s : Screen) : Display.Command → Option (List Span × Color)
  | .pixel x y color => some ([.ofPoint (point x y)], s.surface.colorOr color)
  | .line x₁ y₁ x₂ y₂ color =>
    some ((Shape.line (fun p => decide (s.surface.pixels.Contains p)) (point x₁ y₁)
      (point x₂ y₂)).map .ofPoint, s.surface.colorOr color)
  | .rectangle x₁ y₁ x₂ y₂ filled color =>
    some (Shape.rectangle s.surface.pixels.width s.surface.pixels.height (point x₁ y₁)
      (point x₂ y₂) filled, s.surface.colorOr color)
  | .circle x y radius filled color =>
    some (Shape.circle s.surface.pixels.height (point x y) radius.toInt filled,
      s.surface.colorOr color)
  | .character _ | .textColor _ | .backgroundColor _ | .clearScreen | .clearGraphics | .moveTo _ _
  | .fill _ _ => none

/-- Whether a command colors a point of the surface, and in which color. -/
inductive Colors (s : Screen) : Display.Command → Point → Color → Prop where
  | stroke {command : Display.Command} {spans : List Span} {color : Color} {p : Point} :
      s.stroke? command = some (spans, color) → Span.Covers spans p →
      s.surface.pixels.Contains p → Colors s command p color
  | fill {x y : Int32} {old : Color} {p : Point} :
      s.surface.pixels.Connected old (point x y) p → old ≠ s.surface.ink →
      Colors s (.fill x y) p s.surface.ink

/-- Whether a command clears the surface or colors a point of it. -/
def Draws (s : Screen) (command : Display.Command) : Prop :=
  command = .clearGraphics ∨ ∃ p color, s.Colors command p color

theorem apply_of_stroke? (h : s.stroke? command = some (spans, color)) :
    s.apply command = s.paint color spans := by
  cases command with
  | pixel | line | rectangle | circle =>
      obtain ⟨rfl, rfl⟩ := Prod.mk.inj (Option.some.inj h)
      rfl
  | _ => cases h

/-- The points that a command colors get just this color, and unless it clears the surface, all
others stay as they are. -/
theorem get?_apply (s : Screen) (command : Display.Command) (p : Point) :
    (∀ color, s.Colors command p color → (s.apply command).surface.pixels.get? p = some color) ∧
    (command ≠ .clearGraphics → (∀ color, ¬s.Colors command p color) →
      (s.apply command).surface.pixels.get? p = s.surface.pixels.get? p) := by
  refine ⟨fun color colors => ?_, fun uncleared h => ?_⟩
  · cases colors with
    | stroke stroke covered inside =>
        rw [apply_of_stroke? stroke]
        exact (Grid.get?_foldl_paint _ _ _ _).trans (if_pos ⟨covered, inside⟩)
    | fill path other =>
        exact (Grid.get?_floodFill path.1 other.symm p).trans (if_pos path)
  · cases stroke : s.stroke? command with
    | some painted =>
        obtain ⟨spans, color⟩ := painted
        rw [apply_of_stroke? stroke]
        refine (Grid.get?_foldl_paint _ _ _ _).trans (if_neg fun hit => ?_)
        exact h color (.stroke stroke hit.1 hit.2)
    | none =>
        cases command with
        | pixel | line | rectangle | circle => cases stroke
        | clearGraphics => exact absurd rfl uncleared
        | fill x y =>
            rw [apply_fill]
            cases start : s.surface.pixels.get? (point x y) with
            | none => rw [Grid.floodFill_eq_self (.inl start)]
            | some old =>
                by_cases same : old = s.surface.ink
                · rw [Grid.floodFill_eq_self (.inr (same ▸ start))]
                · exact (Grid.get?_floodFill start (Ne.symm same) p).trans
                    (if_neg fun path => h _ (.fill path same))
        | _ => rfl

theorem pixels_apply (h : ¬s.Draws command) :
    (s.apply command).surface.pixels = s.surface.pixels := by
  rw [Draws, not_or, not_exists] at h
  refine Grid.ext_get? (width_apply s command) (height_apply s command) fun p => ?_
  exact (get?_apply s command p).2 h.1 (not_exists.mp (h.2 p))

/-- A command that paints spans draws if one of them lies on the surface at some point. -/
theorem draws_iff_of_stroke? (stroke : s.stroke? command = some (spans, color)) :
    s.Draws command ↔ spans.any s.surface.pixels.touches = true := by
  rw [Grid.any_touches_iff]
  constructor
  · rintro (rfl | ⟨p, color', colors⟩)
    · cases stroke
    · cases colors with
      | stroke stroke' covered inside =>
          obtain ⟨rfl, -⟩ := Prod.mk.inj (Option.some.inj (stroke.symm.trans stroke'))
          exact ⟨p, covered, inside⟩
      | fill => cases stroke
  · rintro ⟨p, covered, inside⟩
    exact .inr ⟨p, color, .stroke stroke covered inside⟩

theorem draws_fill_iff {x y : Int32} :
    s.Draws (.fill x y) ↔
      (s.surface.pixels.get? (point x y)).any (· != s.surface.ink) = true := by
  rw [Option.any_eq_true]
  constructor
  · rintro (clears | ⟨p, color, colors⟩)
    · cases clears
    · cases colors with
      | stroke stroke => cases stroke
      | @fill _ _ old _ path other => exact ⟨old, path.1, bne_iff_ne.mpr other⟩
  · rintro ⟨old, start, other⟩
    exact .inr ⟨_, _, .fill (.self start) (bne_iff_ne.mp other)⟩

/-- No other command draws, but for the one that clears the surface. -/
theorem not_draws (stroke : s.stroke? command = none) (fill : ∀ x y, command ≠ .fill x y)
    (clear : command ≠ .clearGraphics) : ¬s.Draws command := by
  rintro (clears | ⟨p, color, colors⟩)
  · exact clear clears
  · cases colors with
    | stroke stroke' =>
        rw [stroke] at stroke'
        cases stroke'
    | fill => exact fill _ _ rfl

/-- A command that draws is remembered. -/
theorem dirty_apply :
    (s.apply command).surface.dirty = true ↔ s.surface.dirty = true ∨ s.Draws command := by
  cases stroke : s.stroke? command with
  | some painted =>
      obtain ⟨spans, color⟩ := painted
      rw [apply_of_stroke? stroke, draws_iff_of_stroke? stroke, ← Bool.or_eq_true]
      rfl
  | none =>
      cases command with
      | pixel | line | rectangle | circle => cases stroke
      | clearGraphics => exact iff_of_true rfl (.inr (.inl rfl))
      | fill x y => rw [apply_fill, draws_fill_iff, Bool.or_eq_true]
      | _ => exact (or_iff_left (not_draws stroke (fun _ _ => nofun) nofun)).symm

/-- Whether one of the commands draws, as it finds the screen. -/
def DrawsSome (s : Screen) (commands : List Display.Command) : Prop :=
  ∃ front command back, commands = front ++ command :: back ∧ (s.run front).Draws command

theorem drawsSome_cons {commands : List Display.Command} :
    s.DrawsSome (command :: commands) ↔ s.Draws command ∨ (s.apply command).DrawsSome commands := by
  constructor
  · rintro ⟨front, other, back, whole, draws⟩
    cases front with
    | nil =>
        obtain ⟨rfl, -⟩ := List.cons.inj whole
        exact .inl draws
    | cons first front =>
        obtain ⟨rfl, rfl⟩ := List.cons.inj whole
        exact .inr ⟨front, other, back, rfl, draws⟩
  · rintro (draws | ⟨front, other, back, rfl, draws⟩)
    · exact ⟨[], command, commands, rfl, draws⟩
    · exact ⟨command :: front, other, back, rfl, draws⟩

/-- A surface is drawn on if it was before or if some command draws on it. -/
theorem dirty_run {commands : List Display.Command} :
    (s.run commands).surface.dirty = true ↔
      s.surface.dirty = true ∨ s.DrawsSome commands := by
  induction commands generalizing s with
  | nil =>
      refine ⟨.inl, ?_⟩
      rintro (dirty | ⟨front, command, back, whole, -⟩)
      · exact dirty
      · exact absurd whole.symm (List.append_ne_nil_of_right_ne_nil front (List.cons_ne_nil _ _))
  | cons command commands ih =>
      rw [drawsSome_cons, ← or_assoc, ← dirty_apply]
      exact ih

/-- What is not drawn on does not change. -/
theorem pixels_run {commands : List Display.Command} (h : ¬s.DrawsSome commands) :
    (s.run commands).surface.pixels = s.surface.pixels := by
  induction commands generalizing s with
  | nil => rfl
  | cons command commands ih =>
      rw [drawsSome_cons, not_or] at h
      exact (ih h.2).trans (pixels_apply h.1)

/-- What is done with a screen. -/
inductive Use where
  | command (c : Display.Command)
  /-- Asks whether the surface was drawn on, which is then forgotten. -/
  | takeDirty
  deriving DecidableEq, Repr

def use (s : Screen) : Use → Screen
  | .command c => s.apply c
  | .takeDirty => s.clean

def useAll (s : Screen) (uses : List Use) : Screen := uses.foldl use s

theorem useAll_append_map (s : Screen) (before : List Use) (commands : List Display.Command) :
    s.useAll (before ++ commands.map .command) = (s.useAll before).run commands := by
  rw [useAll, List.foldl_append, List.foldl_map]
  rfl

/-- The uses up to the last time that it was asked, and the commands since. -/
theorem exists_commands_since (uses : List Use) :
    ∃ (before : List Use) (commands : List Display.Command),
      uses = before ++ commands.map .command ∧
        (before = [] ∨ before.getLast? = some .takeDirty) := by
  induction uses using List.reverseRecOn with
  | nil => exact ⟨[], [], rfl, .inl rfl⟩
  | append_singleton uses last ih =>
      cases last with
      | command c =>
          obtain ⟨before, commands, rfl, start⟩ := ih
          exact ⟨before, commands ++ [c], by simp, start⟩
      | takeDirty => exact ⟨uses ++ [.takeDirty], [], by simp, .inr (by simp)⟩

/-- Nothing is remembered at the start and when it was just asked. -/
theorem dirty_useAll_of_start {columns rows : Nat} {before : List Use}
    (start : before = [] ∨ before.getLast? = some .takeDirty) :
    ((empty columns rows).useAll before).surface.dirty = false := by
  rcases start with rfl | last
  · rfl
  · obtain ⟨front, rfl⟩ := List.getLast?_eq_some_iff.mp last
    rw [useAll, List.foldl_append]
    rfl

/-- As long as the surface is not remembered as drawn on, every pixel is what it was when this was
last asked, or at the start, and it is so remembered just if some command since then cleared the
surface or colored a point of it. -/
def RemembersDrawing (start : Screen) (uses : List Use) : Prop :=
  ∃ (before : List Use) (commands : List Display.Command),
    uses = before ++ commands.map .command ∧
    (before = [] ∨ before.getLast? = some .takeDirty) ∧
    let taken := start.useAll before
    let now := start.useAll uses
    (now.surface.dirty = false → ∀ p, now.surface.pixels.get? p = taken.surface.pixels.get? p) ∧
    (now.surface.dirty = true ↔ taken.DrawsSome commands)

theorem remembersDrawing (columns rows : Nat) (uses : List Use) :
    (empty columns rows).RemembersDrawing uses := by
  obtain ⟨before, commands, rfl, start⟩ := exists_commands_since uses
  have clean : ((empty columns rows).useAll before).surface.dirty = false :=
    dirty_useAll_of_start start
  refine ⟨before, commands, rfl, start, ?_⟩
  have drawn : (((empty columns rows).useAll before).run commands).surface.dirty = true ↔ _ :=
    dirty_run
  rw [clean, or_iff_right Bool.false_ne_true] at drawn
  rw [useAll_append_map]
  refine ⟨fun undrawn p => ?_, drawn⟩
  rw [pixels_run (mt drawn.mpr (by simp [undrawn]))]

end Screen

end LineBasic
