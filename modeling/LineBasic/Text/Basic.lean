/-!
# Text

A typed line, a name, a piece of an expression and a printed string are all
lists of characters, so that every scanner of this library is a recursion on
its input. Letter case is folded for the ASCII letters only.
-/

namespace LineBasic

/-- Characters in reading order. -/
abbrev Text := List Char

namespace Text

/-- How many bytes the text takes in UTF-8, the unit in which lines are limited. -/
def byteLength : Text → Nat
  | [] => 0
  | c :: t => c.utf8Size + byteLength t

@[simp] theorem byteLength_nil : byteLength [] = 0 := rfl

@[simp] theorem byteLength_cons (c : Char) (t : Text) :
    byteLength (c :: t) = c.utf8Size + byteLength t := rfl

@[simp] theorem byteLength_append (s t : Text) :
    byteLength (s ++ t) = byteLength s + byteLength t := by
  induction s with
  | nil => simp
  | cons c s ih => simp only [List.cons_append, byteLength_cons, ih, Nat.add_assoc]

/-- Every ASCII letter in its capital form; all other characters stay. -/
def upper (t : Text) : Text := t.map Char.toUpper

@[simp] theorem upper_nil : upper [] = [] := rfl

@[simp] theorem upper_cons (c : Char) (t : Text) : upper (c :: t) = c.toUpper :: upper t := rfl

@[simp] theorem upper_append (s t : Text) : upper (s ++ t) = upper s ++ upper t := by
  simp [upper]

@[simp] theorem length_upper (t : Text) : (upper t).length = t.length := by
  simp [upper]

/-- The text less its last characters as long as they satisfy `p`. -/
def dropEndWhile (p : Char → Bool) (t : Text) : Text := (t.reverse.dropWhile p).reverse

@[simp] theorem dropEndWhile_nil (p : Char → Bool) : dropEndWhile p [] = [] := rfl

/-- What is cut off at the end satisfies `p` throughout. -/
theorem exists_dropEndWhile_append (p : Char → Bool) (t : Text) :
    ∃ cut, t = dropEndWhile p t ++ cut ∧ ∀ c ∈ cut, p c = true := by
  refine ⟨(t.reverse.takeWhile p).reverse, ?_, ?_⟩
  · rw [dropEndWhile, ← List.reverse_append, List.takeWhile_append_dropWhile,
      List.reverse_reverse]
  · intro c hc
    have := List.all_takeWhile (p := p) (l := t.reverse)
    exact List.all_eq_true.mp this c (List.mem_reverse.mp hc)

theorem length_dropEndWhile_le (p : Char → Bool) (t : Text) :
    (dropEndWhile p t).length ≤ t.length := by
  obtain ⟨cut, h, -⟩ := exists_dropEndWhile_append p t
  have := congrArg List.length h
  simp at this
  omega

/-- The text less the characters at both ends that satisfy `p`. -/
def trimWhile (p : Char → Bool) (t : Text) : Text := dropEndWhile p (t.dropWhile p)

theorem length_trimWhile_le (p : Char → Bool) (t : Text) :
    (trimWhile p t).length ≤ t.length :=
  Nat.le_trans (length_dropEndWhile_le p _) (List.dropWhile_suffix p).length_le

/-- The text up to the end of its first line. A carriage return right before the
line feed belongs to that end. -/
def firstLine (t : Text) : Text :=
  let line := t.takeWhile (· != '\n')
  if '\n' ∈ t ∧ line.getLast? = some '\r' then line.dropLast else line

end Text

end LineBasic
