/-!
# Grids

A grid keeps one cell for every point of a rectangle, row by row from the top
left corner. Reading outside gives nothing and writing outside changes nothing,
so callers need no bounds of their own. Main statement: `get?_set` says what
every point reads after one write.
-/

namespace LineBasic

/-- A place on a surface; `x` grows to the right and `y` downward. -/
structure Point where
  x : Int
  y : Int
  deriving DecidableEq, Repr

/-- One cell for every point of a rectangle. -/
structure Grid (α : Type) where
  width : Nat
  height : Nat
  cells : Array α
  size_eq : cells.size = width * height

namespace Grid

variable {α : Type}

/-- A grid with the same cell everywhere. -/
def fill (width height : Nat) (v : α) : Grid α :=
  { width, height, cells := .replicate (width * height) v, size_eq := Array.size_replicate }

/-- Whether the point lies on the grid. -/
def Contains (g : Grid α) (p : Point) : Prop :=
  0 ≤ p.x ∧ p.x < g.width ∧ 0 ≤ p.y ∧ p.y < g.height

instance (g : Grid α) (p : Point) : Decidable (g.Contains p) :=
  inferInstanceAs (Decidable (_ ∧ _ ∧ _ ∧ _))

/-- Where the cell of a point is kept. -/
def index (g : Grid α) (p : Point) : Nat := p.y.toNat * g.width + p.x.toNat

theorem index_lt {g : Grid α} {p : Point} (h : g.Contains p) : g.index p < g.cells.size := by
  obtain ⟨hx, hw, hy, hh⟩ := h
  have hx' : p.x.toNat < g.width := by omega
  have hy' : p.y.toNat + 1 ≤ g.height := by omega
  have := Nat.mul_le_mul_right g.width hy'
  rw [g.size_eq, index, Nat.mul_comm g.width]
  rw [Nat.add_mul] at this
  omega

theorem index_inj {g : Grid α} {p q : Point} (hp : g.Contains p) (hq : g.Contains q) :
    g.index p = g.index q ↔ p = q := by
  constructor
  · intro h
    obtain ⟨px, py⟩ := p
    obtain ⟨qx, qy⟩ := q
    obtain ⟨hx, hw, hy, hh⟩ := hp
    obtain ⟨hx', hw', hy', hh'⟩ := hq
    simp only [index] at *
    have hlt : px.toNat < g.width := by omega
    have hlt' : qx.toNat < g.width := by omega
    have hpos : 0 < g.width := by omega
    have hmod := congrArg (· % g.width) h
    have hdiv := congrArg (· / g.width) h
    simp only [Nat.mul_add_mod_self_right, Nat.mod_eq_of_lt hlt, Nat.mod_eq_of_lt hlt'] at hmod
    rw [Nat.mul_comm, Nat.mul_comm qy.toNat] at hdiv
    simp only [Nat.mul_add_div hpos, Nat.div_eq_of_lt hlt, Nat.div_eq_of_lt hlt'] at hdiv
    simp only [Point.mk.injEq]
    omega
  · rintro rfl
    rfl

def get? (g : Grid α) (p : Point) : Option α :=
  if h : g.Contains p then some (getElem g.cells (g.index p) (index_lt h)) else none

/-- The grid with the cell at one point replaced. -/
def set (g : Grid α) (p : Point) (v : α) : Grid α :=
  if h : g.Contains p then
    { g with
      cells := g.cells.set (g.index p) v (index_lt h)
      size_eq := by rw [Array.size_set, g.size_eq] }
  else g

/-- The grid without its first row and with a row of one cell behind the last. -/
def scroll (g : Grid α) (v : α) : Grid α :=
  { g with
    cells := (g.cells ++ .replicate g.width v).extract g.width (g.cells.size + g.width)
    size_eq := by
      rw [Array.size_extract, Array.size_append, Array.size_replicate, ← g.size_eq]
      omega }

/-- The cells of one row, from left to right. -/
def row (g : Grid α) (y : Nat) : List α :=
  (g.cells.extract (y * g.width) ((y + 1) * g.width)).toList

def rows (g : Grid α) : List (List α) := (List.range g.height).map g.row

@[simp] theorem width_fill (w h : Nat) (v : α) : (fill w h v).width = w := rfl

@[simp] theorem height_fill (w h : Nat) (v : α) : (fill w h v).height = h := rfl

@[simp] theorem width_set (g : Grid α) (p : Point) (v : α) : (g.set p v).width = g.width := by
  unfold set
  split <;> rfl

@[simp] theorem height_set (g : Grid α) (p : Point) (v : α) : (g.set p v).height = g.height := by
  unfold set
  split <;> rfl

@[simp] theorem width_scroll (g : Grid α) (v : α) : (g.scroll v).width = g.width := rfl

@[simp] theorem height_scroll (g : Grid α) (v : α) : (g.scroll v).height = g.height := rfl

@[simp] theorem contains_set {g : Grid α} {p q : Point} {v : α} :
    (g.set p v).Contains q ↔ g.Contains q := by
  simp [Contains]

theorem isSome_get? {g : Grid α} {p : Point} : (g.get? p).isSome ↔ g.Contains p := by
  unfold get?
  split <;> simp_all

theorem contains_of_get? {g : Grid α} {p : Point} {v : α} (h : g.get? p = some v) :
    g.Contains p :=
  isSome_get?.mp (by simp [h])

theorem get?_eq_none {g : Grid α} {p : Point} (h : ¬ g.Contains p) : g.get? p = none := by
  simp [get?, h]

theorem get?_eq_getElem? {g : Grid α} {p : Point} (h : g.Contains p) :
    g.get? p = g.cells[g.index p]? := by
  simp [get?, h, index_lt h]

theorem set_eq_self {g : Grid α} {p : Point} {v : α} (h : ¬ g.Contains p) : g.set p v = g := by
  simp [set, h]

theorem get?_fill (w h : Nat) (v : α) (p : Point) :
    (fill w h v).get? p = if (fill w h v).Contains p then some v else none := by
  unfold get?
  split <;> simp [fill]

theorem get?_set (g : Grid α) (p q : Point) (v : α) :
    (g.set p v).get? q = if p = q ∧ g.Contains q then some v else g.get? q := by
  by_cases hq : g.Contains q
  · rw [get?_eq_getElem? (contains_set.mpr hq), get?_eq_getElem? hq, index, width_set, ← index]
    by_cases hp : g.Contains p
    · simp only [set, hp, dite_true, Array.getElem?_set, index_inj hp hq, hq, and_true]
    · have : p ≠ q := fun h => hp (h ▸ hq)
      simp [set_eq_self hp, this]
  · rw [get?_eq_none (fun h => hq (contains_set.mp h)), get?_eq_none hq]
    simp [hq]

/-- Scrolling moves every row up by one. -/
theorem get?_scroll {g : Grid α} {p : Point} (v : α) (h : g.Contains p) :
    (g.scroll v).get? p = if p.y + 1 < g.height then g.get? ⟨p.x, p.y + 1⟩ else some v := by
  have inside : (g.scroll v).Contains p := h
  have bound := index_lt h
  obtain ⟨hx, hw, hy, hh⟩ := h
  have below : g.index ⟨p.x, p.y + 1⟩ = g.index p + g.width := by
    have next : (p.y + 1).toNat = p.y.toNat + 1 := by omega
    simp only [index, next, Nat.add_mul, Nat.one_mul]
    omega
  have moved : (g.scroll v).get? p = (g.cells ++ Array.replicate g.width v)[g.index p + g.width]? := by
    rw [get?_eq_getElem? inside, Nat.add_comm]
    simp only [scroll, Array.getElem?_extract, Array.size_append, Array.size_replicate]
    exact if_pos (by simp only [index] at bound ⊢; omega)
  rw [moved]
  by_cases row : p.y + 1 < g.height
  · have next : g.Contains ⟨p.x, p.y + 1⟩ := ⟨hx, hw, by simp only; omega, row⟩
    rw [if_pos row, get?_eq_getElem? next, below, Array.getElem?_append_left]
    exact below ▸ index_lt next
  · have size : g.cells.size = p.y.toNat * g.width + g.width := by
      have last : g.height = p.y.toNat + 1 := by omega
      rw [g.size_eq, last, Nat.mul_add, Nat.mul_one, Nat.mul_comm]
    have behind : g.index p + g.width - g.cells.size < g.width := by omega
    rw [if_neg row, Array.getElem?_append_right, Array.getElem?_replicate, if_pos behind]
    simp only [index]
    omega

/-- Writing over one cell takes it out of the count of its old kind. -/
theorem countP_set {g : Grid α} {p : Point} {v old : α} (holds : α → Bool)
    (h : g.get? p = some old) (hold : holds old = true) (hnew : holds v = false) :
    (g.set p v).cells.countP holds + 1 = g.cells.countP holds := by
  have hp := contains_of_get? h
  have hi := index_lt hp
  have hget : getElem g.cells (g.index p) hi = old := by simpa [get?, hp] using h
  have hpos : 0 < g.cells.countP holds :=
    Array.countP_pos_iff.mpr ⟨old, hget ▸ Array.getElem_mem hi, hold⟩
  simp only [set, hp, dite_true, Array.countP_set, hget, hold, hnew, if_true]
  simp
  omega

end Grid

end LineBasic
