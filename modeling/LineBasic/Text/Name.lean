import LineBasic.Text.Blank

/-!
# Names, literals and assignments

A name is a letter followed by letters and digits, with an optional dollar sign
at its end. Names that differ in letter case only are the same variable: the
canonical form has capitals throughout. A literal stands in double quotes and
holds none.
-/

namespace LineBasic.Text

/-- The text without one dollar sign at its end. -/
def stem (t : Text) : Text := if t.getLast? = some '$' then t.dropLast else t

def isName (t : Text) : Bool :=
  match t.stem with
  | [] => false
  | c :: rest => c.isAlpha && rest.all Char.isAlphanum

/-- The form under which a variable of this name is kept. -/
def canonical (t : Text) : Text := t.trim.upper

/-- The characters between the quotes, if the text is one literal. -/
def literal? : Text → Option Text
  | '"' :: rest =>
    if rest.getLast? = some '"' ∧ '"' ∉ rest.dropLast then some rest.dropLast else none
  | _ => none

/-- Both sides of the first equals sign, if the left one is a name. -/
def assignment? (t : Text) : Option (Text × Text) :=
  match t.dropWhile (· != '=') with
  | [] => none
  | _ :: value =>
    let name := trimGaps (t.takeWhile (· != '='))
    if isName name then some (name, trimGaps value) else none

/-- A literal is its inner text between two quotes. -/
theorem literal?_eq_some_iff {t inner : Text} :
    literal? t = some inner ↔ t = '"' :: inner ++ ['"'] ∧ '"' ∉ inner := by
  constructor
  · intro h
    unfold literal? at h
    split at h
    · next rest =>
      split at h
      · next hq =>
        obtain rfl : rest.dropLast = inner := by simpa using h
        obtain ⟨hl, hm⟩ := hq
        obtain ⟨front, rfl⟩ := List.getLast?_eq_some_iff.mp hl
        simp_all
      · cases h
    · cases h
  · rintro ⟨rfl, h⟩
    simp [literal?, h]

@[simp] theorem isName_nil : isName [] = false := rfl

/-- A name is not empty. -/
theorem ne_nil_of_isName {t : Text} (h : isName t = true) : t ≠ [] := by
  rintro rfl
  simp at h

end LineBasic.Text
