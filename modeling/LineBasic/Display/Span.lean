import LineBasic.Display.Grid

/-!
# Spans

A span is a horizontal run of points, both ends included. Shapes are lists of
spans, and painting one paints every point of it that lies on the grid. Main
statement: `get?_paint`.
-/

namespace LineBasic

/-- The points of row `y` from `left` to `right`. -/
structure Span where
  y : Int
  left : Int
  right : Int
  deriving DecidableEq, Repr

namespace Span

def ofPoint (p : Point) : Span := ⟨p.y, p.x, p.x⟩

def Contains (s : Span) (p : Point) : Prop := p.y = s.y ∧ s.left ≤ p.x ∧ p.x ≤ s.right

instance (s : Span) (p : Point) : Decidable (s.Contains p) :=
  inferInstanceAs (Decidable (_ ∧ _ ∧ _))

@[simp] theorem contains_ofPoint {p q : Point} : (ofPoint p).Contains q ↔ q = p := by
  obtain ⟨px, py⟩ := p
  obtain ⟨qx, qy⟩ := q
  simp only [Contains, ofPoint, Point.mk.injEq]
  omega

end Span

namespace Grid

variable {α : Type}

/-- The part of a span that lies between the left and the right edge: its first
column and how many points it has. -/
def clip (g : Grid α) (s : Span) : Int × Nat :=
  (max s.left 0, (min s.right (g.width - 1) - max s.left 0 + 1).toNat)

/-- Whether some point of the span lies on the grid. -/
def touches (g : Grid α) (s : Span) : Bool := 0 ≤ s.y && s.y < g.height && (g.clip s).2 != 0

/-- Writes `n` neighbouring cells, from left to right. -/
def setRun (g : Grid α) (p : Point) (v : α) : Nat → Grid α
  | 0 => g
  | n + 1 => (g.set p v).setRun ⟨p.x + 1, p.y⟩ v n

/-- Writes every cell of a span that lies on the grid. -/
def paint (g : Grid α) (v : α) (s : Span) : Grid α :=
  if 0 ≤ s.y ∧ s.y < g.height then g.setRun ⟨(g.clip s).1, s.y⟩ v (g.clip s).2 else g

@[simp] theorem width_setRun (g : Grid α) (p : Point) (v : α) (n : Nat) :
    (g.setRun p v n).width = g.width := by
  induction n generalizing g p with
  | zero => rfl
  | succ n ih => simp [setRun, ih]

@[simp] theorem height_setRun (g : Grid α) (p : Point) (v : α) (n : Nat) :
    (g.setRun p v n).height = g.height := by
  induction n generalizing g p with
  | zero => rfl
  | succ n ih => simp [setRun, ih]

theorem get?_setRun (g : Grid α) (p q : Point) (v : α) (n : Nat) :
    (g.setRun p v n).get? q =
      if q.y = p.y ∧ p.x ≤ q.x ∧ q.x < p.x + n ∧ g.Contains q then some v else g.get? q := by
  induction n generalizing g p with
  | zero =>
    rw [setRun, if_neg]
    omega
  | succ n ih =>
    obtain ⟨px, py⟩ := p
    obtain ⟨qx, qy⟩ := q
    simp only [setRun, ih, contains_set, get?_set, Point.mk.injEq]
    split
    · next h => rw [if_pos ⟨h.1, by omega, by omega, h.2.2.2⟩]
    · next h =>
      split
      · next h' => rw [if_pos ⟨h'.1.2.symm, by omega, by omega, h'.2⟩]
      · next h' =>
        rw [if_neg]
        rintro ⟨hy, hl, hr, hq⟩
        by_cases hx : px = qx
        · exact h' ⟨⟨hx, hy.symm⟩, hq⟩
        · exact h ⟨hy, by omega, by omega, hq⟩

@[simp] theorem width_paint (g : Grid α) (v : α) (s : Span) : (g.paint v s).width = g.width := by
  unfold paint
  split <;> simp

@[simp] theorem height_paint (g : Grid α) (v : α) (s : Span) :
    (g.paint v s).height = g.height := by
  unfold paint
  split <;> simp

@[simp] theorem contains_paint {g : Grid α} {v : α} {s : Span} {p : Point} :
    (g.paint v s).Contains p ↔ g.Contains p := by
  simp [Contains]

/-- Painting a span writes exactly its points on the grid. -/
theorem get?_paint (g : Grid α) (v : α) (s : Span) (p : Point) :
    (g.paint v s).get? p = if s.Contains p ∧ g.Contains p then some v else g.get? p := by
  unfold paint
  split
  · next hy =>
    rw [get?_setRun]
    by_cases h : s.Contains p ∧ g.Contains p
    · rw [if_pos h, if_pos]
      obtain ⟨⟨h₁, h₂, h₃⟩, h₄⟩ := h
      have := h₄
      simp only [Contains] at this
      exact ⟨h₁, by simp only [clip]; omega, by simp only [clip]; omega, h₄⟩
    · rw [if_neg h, if_neg]
      rintro ⟨h₁, h₂, h₃, h₄⟩
      have := h₄
      simp only [Contains, clip] at this h₂ h₃
      exact h ⟨⟨h₁, by omega, by omega⟩, h₄⟩
  · next hy =>
    rw [if_neg]
    rintro ⟨⟨h₁, -, -⟩, h₂⟩
    simp only [Contains] at h₂
    omega

/-- A span touches the grid when the two have a point in common. -/
theorem touches_iff {g : Grid α} {s : Span} :
    g.touches s = true ↔ ∃ p, s.Contains p ∧ g.Contains p := by
  simp only [touches, clip, Bool.and_eq_true, decide_eq_true_eq, bne_iff_ne, ne_eq]
  constructor
  · rintro ⟨⟨hy, hh⟩, hn⟩
    refine ⟨⟨max s.left 0, s.y⟩, ⟨rfl, ?_, ?_⟩, ?_, ?_, hy, hh⟩ <;> simp only <;> omega
  · rintro ⟨p, ⟨h₁, h₂, h₃⟩, h₄, h₅, h₆, h₇⟩
    refine ⟨⟨by omega, by omega⟩, ?_⟩
    omega

end Grid

end LineBasic
