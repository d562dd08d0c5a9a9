import LineBasic.Text.Nesting

/-!
# Relations

A condition compares two values by one of six relations, which have nine
spellings. Every relation is a set of the three outcomes of a comparison, so it
is decided on an ordering.
-/

namespace LineBasic

inductive Relation where
  | equal
  | notEqual
  | less
  | lessEqual
  | greater
  | greaterEqual
  deriving DecidableEq, Repr

namespace Relation

/-- Every spelling with its relation. Those of two characters come first, since
the first one that fits is read. -/
def spellings : List (String × Relation) :=
  [("<>", notEqual), ("><", notEqual), ("<=", lessEqual), ("=<", lessEqual),
    (">=", greaterEqual), ("=>", greaterEqual), ("<", less), (">", greater), ("=", equal)]

/-- The spelling that is written. -/
def spelling : Relation → String
  | equal => "="
  | notEqual => "<>"
  | less => "<"
  | lessEqual => "<="
  | greater => ">"
  | greaterEqual => ">="

/-- Whether the relation holds of two values that compare like this. -/
def holds : Relation → Ordering → Bool
  | equal, o => o.isEq
  | notEqual, o => o.isNe
  | less, o => o.isLT
  | lessEqual, o => o.isLE
  | greater, o => o.isGT
  | greaterEqual, o => o.isGE

/-- The relation with its sides exchanged. -/
def swap : Relation → Relation
  | equal => equal
  | notEqual => notEqual
  | less => greater
  | lessEqual => greaterEqual
  | greater => less
  | greaterEqual => lessEqual

@[simp] theorem swap_swap (r : Relation) : r.swap.swap = r := by cases r <;> rfl

theorem holds_swap (r : Relation) (o : Ordering) : r.swap.holds o.swap = r.holds o := by
  cases r <;> cases o <;> rfl

/-- The relation that the text starts with, and the text behind it. -/
def leading? (t : Text) : Option (Relation × Text) :=
  spellings.findSome? fun (spelling, relation) =>
    (spelling.toList.isPrefixOf? t).map fun rest => (relation, rest)

/-- The first exposed relation of a text with the texts on both sides. -/
def divide? (t : Text) : Option (Text × Relation × Text) := t.cut? fun _ s => leading? s

end Relation

end LineBasic
