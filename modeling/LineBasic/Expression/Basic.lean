import LineBasic.Text.Blank

/-!
# Expressions

An expression is kept as source text and evaluated anew each time it is needed,
with the variables of that moment.
-/

namespace LineBasic

/-- The source of an expression, without blanks around it. -/
structure Expression where
  source : Text
  deriving DecidableEq, Repr

namespace Expression

/-- The expression that a text holds. -/
def ofText (t : Text) : Expression := ⟨t.trim⟩

@[simp] theorem source_ofText (t : Text) : (ofText t).source = t.trim := rfl

end Expression

end LineBasic
