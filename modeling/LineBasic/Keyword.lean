import LineBasic.Text.Blank
import LineBasic.Text.Nesting

/-!
# Keywords

Most keywords open a statement; four only divide one. At the start of a
statement the whole run of letters must spell the keyword, so a longer word that
begins like one is not split, while a digit or a sign may follow at once. Inside
a statement a dividing keyword must not touch a letter on either side, nor a
dollar sign before it, which would make it the end of a name.
-/

namespace LineBasic

inductive Keyword where
  | circle
  | cls
  | color
  | else_
  | end_
  | fill
  | for_
  | home
  | htab
  | if_
  | let_
  | line
  | list
  | new
  | next
  | plot
  | print
  /-- The short form of the word for printing. -/
  | question
  | rect
  | rem
  | run
  | step
  | then_
  | to_
  | vtab
  deriving DecidableEq, Repr

namespace Keyword

/-- All keywords in the order of their spellings. -/
def all : List Keyword :=
  [circle, cls, color, else_, end_, fill, for_, home, htab, if_, let_, line, list, new, next,
    plot, print, question, rect, rem, run, step, then_, to_, vtab]

def spelling : Keyword → String
  | circle => "CIRCLE"
  | cls => "CLS"
  | color => "COLOR"
  | else_ => "ELSE"
  | end_ => "END"
  | fill => "FILL"
  | for_ => "FOR"
  | home => "HOME"
  | htab => "HTAB"
  | if_ => "IF"
  | let_ => "LET"
  | line => "LINE"
  | list => "LIST"
  | new => "NEW"
  | next => "NEXT"
  | plot => "PLOT"
  | print => "PRINT"
  | question => "?"
  | rect => "RECT"
  | rem => "REM"
  | run => "RUN"
  | step => "STEP"
  | then_ => "THEN"
  | to_ => "TO"
  | vtab => "VTAB"

theorem mem_all (w : Keyword) : w ∈ all := by cases w <;> decide

/-- The keyword that the whole text spells, in any letter case. -/
def ofText? (t : Text) : Option Keyword := all.find? fun w => w.spelling.toList == t.upper

theorem ofText?_spelling (w : Keyword) : ofText? w.spelling.toList = some w := by
  cases w <;> rfl

theorem upper_eq_of_ofText? {t : Text} {w : Keyword} (h : ofText? t = some w) :
    t.upper = w.spelling.toList := by
  have := List.find?_some h
  exact (beq_iff_eq.mp this).symm

/-- The keyword that opens a statement, with the text behind it. -/
def leading? (t : Text) : Option (Keyword × Text) :=
  match t.dropWhile isGap with
  | '?' :: rest => some (question, Text.trimGaps rest)
  | s => (ofText? (s.takeWhile Char.isAlpha)).map fun w =>
      (w, Text.trimGaps (s.dropWhile Char.isAlpha))

/-- The text behind the keyword, if the text starts with it and neither
neighbour makes it part of a longer word. -/
def behind? (w : Keyword) (before : Option Char) (t : Text) : Option Text :=
  if Text.upper (t.take w.spelling.length) = w.spelling.toList
      ∧ before.all (fun c => !c.isAlpha && c != '$') = true
      ∧ (t.drop w.spelling.length).head?.all (fun c => !c.isAlpha) = true
  then some (t.drop w.spelling.length) else none

/-- The texts before and behind the first exposed occurrence of the keyword. -/
def divide? (w : Keyword) (t : Text) : Option (Text × Text) := t.cut? w.behind?

/-- What opens a statement is cut off in front of the text that is left. -/
theorem length_le_of_leading? {t rest : Text} {w : Keyword} (h : leading? t = some (w, rest)) :
    rest.length < t.length := by
  have gaps : (t.dropWhile isGap).length ≤ t.length := (List.dropWhile_suffix _).length_le
  unfold leading? at h
  split at h
  · next s hs =>
    obtain ⟨-, rfl⟩ : question = w ∧ Text.trimGaps s = rest := by simpa using h
    have := Text.length_trimGaps_le s
    have := congrArg List.length hs
    simp at this
    omega
  · next s =>
    obtain ⟨v, hv, heq⟩ := Option.map_eq_some_iff.mp h
    obtain ⟨rfl, rfl⟩ : v = w ∧ Text.trimGaps ((t.dropWhile isGap).dropWhile Char.isAlpha) = rest := by
      simpa using heq
    have hw := congrArg List.length (upper_eq_of_ofText? hv)
    have hpos : 0 < v.spelling.toList.length := by cases v <;> decide
    have hsum := congrArg List.length
      (List.takeWhile_append_dropWhile (p := Char.isAlpha) (l := t.dropWhile isGap))
    have := Text.length_trimGaps_le ((t.dropWhile isGap).dropWhile Char.isAlpha)
    simp only [Text.length_upper, List.length_append] at hw hsum
    omega

/-- Dividing takes the keyword out. -/
theorem length_lt_of_divide? {t left right : Text} {w : Keyword}
    (h : w.divide? t = some (left, right)) : left.length + right.length < t.length := by
  obtain ⟨before, rest, rfl, hb⟩ := Text.exists_of_cut? h
  unfold behind? at hb
  have hpos : 0 < w.spelling.length := by cases w <;> decide
  split at hb
  · next hc =>
    have hlen := congrArg List.length hc.1
    simp only [Text.length_upper, List.length_take, String.length_toList] at hlen
    obtain rfl : rest.drop w.spelling.length = right := by simpa using hb
    simp only [List.length_append, List.length_drop]
    omega
  · cases hb

end Keyword

end LineBasic
