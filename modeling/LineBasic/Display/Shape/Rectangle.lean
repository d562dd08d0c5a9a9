import LineBasic.Display.Span

/-!
# Rectangles

A rectangle is given by two opposite corners in any order. What lies off the
surface is cut away first, so the outline of a rectangle that reaches beyond an
edge runs along that edge.
-/

namespace LineBasic

/-- The integers from `a` to `b` in ascending order, both included. -/
def between (a b : Int) : List Int := (List.range (b - a + 1).toNat).map fun (i : Nat) => a + i

@[simp] theorem mem_between {a b n : Int} : n ∈ between a b ↔ a ≤ n ∧ n ≤ b := by
  simp only [between, List.mem_map, List.mem_range]
  constructor
  · rintro ⟨i, hi, rfl⟩
    omega
  · rintro ⟨ha, hb⟩
    exact ⟨(n - a).toNat, by omega, by omega⟩

theorem between_cons {a b : Int} (h : a ≤ b) : between a b = a :: between (a + 1) b := by
  have count : (b - a + 1).toNat = (b - (a + 1) + 1).toNat + 1 := by omega
  rw [between, between, count, List.range_succ_eq_map, List.map_cons, List.map_map]
  congr 1
  · simp
  · refine List.map_congr_left fun i _ => ?_
    simp only [Function.comp]
    omega

theorem between_nil {a b : Int} (h : b < a) : between a b = [] := by
  have count : (b - a + 1).toNat = 0 := by omega
  rw [between, count, List.range_zero, List.map_nil]

namespace Shape

/-- The bounds of a rectangle, all included. -/
structure Box where
  left : Int
  right : Int
  top : Int
  bottom : Int
  deriving DecidableEq, Repr

namespace Box

/-- The bounds of the part of a rectangle on a surface of this size. -/
def ofCorners (width height : Nat) (a b : Point) : Box :=
  { left := max (min a.x b.x) 0
    right := min (max a.x b.x) (width - 1)
    top := max (min a.y b.y) 0
    bottom := min (max a.y b.y) (height - 1) }

def isEmpty (b : Box) : Bool := b.right < b.left || b.bottom < b.top

/-- Every row in full. -/
def filled (b : Box) : List Span := (between b.top b.bottom).map fun y => ⟨y, b.left, b.right⟩

/-- The first and the last row in full, and both ends of every row. -/
def outline (b : Box) : List Span :=
  ⟨b.top, b.left, b.right⟩ :: ⟨b.bottom, b.left, b.right⟩ ::
    (between b.top b.bottom).flatMap fun y => [.ofPoint ⟨b.left, y⟩, .ofPoint ⟨b.right, y⟩]

end Box

def rectangle (width height : Nat) (a b : Point) (filled : Bool) : List Span :=
  let box := Box.ofCorners width height a b
  if box.isEmpty then [] else if filled then box.filled else box.outline

end Shape

end LineBasic
