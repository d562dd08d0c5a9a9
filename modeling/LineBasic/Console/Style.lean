import LineBasic.Display.Palette
import LineBasic.Display.Surface
import LineBasic.Text.Decimal

/-!
# Styled text

Escape sequences that a terminal understands, and the picture of a drawing
surface in block characters. A picture shows two rows of pixels in one row of
text: in color as an upper half block in the colors of both pixels, and without
color by the shape of the block, where the color of an undrawn pixel is empty.
-/

namespace LineBasic.Style

/-- The start of an escape sequence. -/
def escape : String := "\x1b["

def reset : String := escape ++ "0m"

/-- A number between the parts of an escape sequence. -/
def part (n : UInt8) : String := String.ofList (Decimal.print n.toNat)

def rgb (h : Hue) : String := part h.red ++ ";" ++ part h.green ++ ";" ++ part h.blue

/-- Text in a color over a background. -/
def colored (color background : Color) (t : String) : String :=
  escape ++ "48;2;" ++ rgb (Palette.hue background) ++ ";38;2;" ++ rgb (Palette.hue color) ++ "m" ++
    t ++ reset

def bold (t : String) : String := escape ++ "1m" ++ t ++ reset

/-- The block that shows two pixels, one above the other, without color. -/
def block (top bottom : Color) : Char :=
  match top == Surface.blank, bottom == Surface.blank with
  | true, true => ' '
  | false, true => '▀'
  | true, false => '▄'
  | false, false => '█'

def pixels (color : Bool) (top bottom : Color) : String :=
  if color then colored top bottom "▀" else (block top bottom).toString

/-- One row of a picture: the rows `y` and `y + 1` of the surface. -/
def pictureRow (color : Bool) (s : Surface) (y : Nat) : String :=
  (List.range s.pixels.width).foldl (fun (row : String) (x : Nat) =>
    let top := (s.pixel? x y).getD Surface.blank
    let bottom := (s.pixel? x (y + 1)).getD top
    row ++ pixels color top bottom) ""

/-- The picture of a surface, two rows of pixels to a line. -/
def picture (color : Bool) (s : Surface) : String :=
  (List.range ((s.pixels.height + 1) / 2)).foldl (fun (text : String) (i : Nat) =>
    text ++ pictureRow color s (2 * i) ++ "\n") ""

/-- What stands for two pixels, one above the other: the upper half block in the color of the
upper pixel over that of the lower one, or a block where pixels were drawn. -/
def shown (color : Bool) (top bottom : Color) : String :=
  if color then
    "\x1b[48;2;" ++ rgb (Palette.hue bottom) ++ ";38;2;" ++ rgb (Palette.hue top) ++ "m▀\x1b[0m"
  else if top = 15 then if bottom = 15 then " " else "▄"
  else if bottom = 15 then "▀" else "█"

/-- The text is a picture of the pixels. It has a line for each two rows of them, and on it stands
for each column the upper pixel with the lower one, or with itself if there is no row below. -/
def Draws (color : Bool) (grid : Grid Color) (text : String) : Prop :=
  ∃ rows : List (List String),
    text = String.join (rows.map fun row => String.join row ++ "\n") ∧
      rows.length = (grid.height + 1) / 2 ∧
      ∀ (i : Nat) row, rows[i]? = some row → row.length = grid.width ∧
        ∀ (x : Nat) entry, row[x]? = some entry → ∃ top,
          grid.get? ⟨x, 2 * i⟩ = some top ∧
            entry = shown color top ((grid.get? ⟨x, 2 * i + 1⟩).getD top)

theorem pixels_eq_shown (color : Bool) (top bottom : Color) :
    pixels color top bottom = shown color top bottom := by
  cases color with
  | true =>
      have opening : escape ++ "48;2;" = "\x1b[48;2;" := by decide
      have closing : "m" ++ "▀" ++ (escape ++ "0m") = "m▀\x1b[0m" := by decide
      rw [pixels, if_pos rfl, shown, if_pos rfl, colored, reset, opening, ← closing]
      simp only [String.append_assoc]
  | false =>
      have blank : Surface.blank = 15 := rfl
      rw [pixels, if_neg Bool.false_ne_true, shown, if_neg Bool.false_ne_true, block, blank]
      have drawn (c : Color) : (c = 15) = ((c == 15) = true) := by rw [beq_iff_eq]
      simp only [drawn]
      cases top == 15 <;> cases bottom == 15 <;> rfl

theorem getElem?_map_range_eq_some_iff {α : Type} {n i : Nat} {f : Nat → α} {a : α} :
    ((List.range n).map f)[i]? = some a ↔ i < n ∧ f i = a := by
  rw [List.getElem?_map, Option.map_eq_some_iff]
  constructor
  · rintro ⟨j, place, rfl⟩
    obtain ⟨inside, rfl⟩ := List.getElem?_eq_some_iff.mp place
    rw [List.getElem_range]
    exact ⟨by simpa using inside, rfl⟩
  · rintro ⟨inside, rfl⟩
    exact ⟨i, List.getElem?_range inside, rfl⟩

/-- A picture shows the pixels of which it is drawn. -/
theorem draws_picture (color : Bool) (s : Surface) : Draws color s.pixels (picture color s) := by
  let entries (i : Nat) : List String := (List.range s.pixels.width).map fun (x : Nat) =>
    let top := (s.pixel? x (2 * i : Nat)).getD Surface.blank
    pixels color top ((s.pixel? x ((2 * i : Nat) + 1)).getD top)
  have row (i : Nat) : pictureRow color s (2 * i) = String.join (entries i) := by
    rw [String.join, List.foldl_map, pictureRow]
  refine ⟨(List.range ((s.pixels.height + 1) / 2)).map entries, ?_, by simp, ?_⟩
  · rw [String.join, List.map_map, List.foldl_map, picture]
    simp only [row, String.append_assoc, Function.comp_apply]
  · intro i row found
    obtain ⟨inside, rfl⟩ := getElem?_map_range_eq_some_iff.mp found
    refine ⟨by simp [entries], fun x entry found => ?_⟩
    obtain ⟨within, rfl⟩ := getElem?_map_range_eq_some_iff.mp found
    have contains : s.pixels.Contains ⟨x, 2 * i⟩ := by
      refine ⟨?_, ?_, ?_, ?_⟩ <;> dsimp only <;> omega
    obtain ⟨top, upper⟩ := Option.isSome_iff_exists.mp (Grid.isSome_get?.mpr contains)
    refine ⟨top, upper, ?_⟩
    have upper : s.pixel? x (2 * i : Nat) = some top := upper
    rw [pixels_eq_shown]
    simp only [upper, Option.getD_some]
    rfl

end LineBasic.Style
