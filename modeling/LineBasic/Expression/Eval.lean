import LineBasic.Expression.Basic
import LineBasic.Expression.Terms
import LineBasic.Text.Nesting
import LineBasic.Value.Variables

/-!
# Evaluation

The first rule that applies decides what a text denotes:

1. a call of `CHR$` that spans the text;
2. pieces joined by `+`, at least one of which is a literal;
3. a single literal;
4. arithmetic on integers and on names that hold integers;
5. digits with a sign before them;
6. a name;
7. anything else denotes itself.

Only the first two rules look inside a text again, and what they look at is
shorter, so evaluation ends.
-/

namespace LineBasic

namespace Expression

/-- Whether some closing parenthesis outside literals has no partner before it. -/
def closesOutside (n : Nesting) : Text → Bool
  | [] => false
  | c :: t => (c == ')' && !n.quoted && n.depth == 0) || closesOutside (n.after c) t

/-- The text between the parentheses of a call that spans the whole text. -/
def callArgument? (t : Text) : Option Text :=
  if Text.upper (t.take 4) = "CHR$".toList then
    match (t.drop 4).dropWhile isBlank with
    | '(' :: rest =>
      if rest.getLast? = some ')' ∧ closesOutside .outside rest.dropLast = false
      then some rest.dropLast else none
    | _ => none
  else none

theorem length_lt_of_callArgument? {t inner : Text} (h : callArgument? t = some inner) :
    inner.length < t.length := by
  have hd : ((t.drop 4).dropWhile isBlank).length ≤ t.length :=
    Nat.le_trans (List.dropWhile_suffix _).length_le (by simp)
  unfold callArgument? at h
  split at h
  · split at h
    · next rest hs =>
      split at h
      · obtain rfl : rest.dropLast = inner := by simpa using h
        have := congrArg List.length hs
        simp only [List.length_cons] at this
        simp only [List.length_dropLast]
        omega
      · cases h
    · cases h
  · cases h

/-- The pieces between exposed plus signs, without blanks around them. -/
def joined (t : Text) : List Text := (t.split '+').map Text.trim

/-- Whether the text is a join: several pieces, at least one of them a literal. -/
def isJoin (t : Text) : Bool :=
  2 ≤ (joined t).length && (joined t).any fun piece => piece.literal?.isSome

theorem length_lt_of_isJoin {t piece : Text} (h : isJoin t = true) (hp : piece ∈ joined t) :
    piece.length < t.length := by
  simp only [isJoin, joined, Bool.and_eq_true, decide_eq_true_eq, List.length_map] at h
  obtain ⟨s, hs, rfl⟩ := List.mem_map.mp hp
  exact Nat.lt_of_le_of_lt (Text.length_trim_le s) (Text.length_lt_of_mem_split hs h.1)

/-- The integer of an operand. A name that holds text makes the whole chain no
arithmetic, as does a word that starts with a digit. -/
def operand? (vars : Variables) (t : Text) : Option (Except Error Int32) :=
  if t.head?.any Char.isDigit then
    if Decimal.isDigits t then some (Integer.checked (Decimal.value t)) else none
  else if t.isName then
    match vars.fetch t.upper with
    | .integer n => some (.ok n)
    | .text _ => none
  else none

/-- The terms of a text with their integers, if every operand has one. -/
def operands? (vars : Variables) (t : Text) :
    Option (List (Operator × Bool × Except Error Int32)) := do
  (← Term.ofText? t).mapM fun term => do
    return (term.operator, term.negated, ← operand? vars term.operand)

/-- Applies one term to what is computed so far. -/
def applyTerm (sum : Int32) : Operator × Bool × Except Error Int32 → Except Error Int32
  | (o, negated, value) => do
    let value ← value
    let value ← if negated then Integer.negate value else .ok value
    o.apply sum value

/-- The value of an arithmetic text, from left to right. -/
def arithmetic? (vars : Variables) (t : Text) : Option (Except Error Int32) :=
  (operands? vars t).map fun terms => terms.foldlM applyTerm 0

/-- Whether the text is digits with at most one sign before them. -/
def isSigned : Text → Bool
  | '+' :: t => Decimal.isDigits t
  | '-' :: t => Decimal.isDigits t
  | t => Decimal.isDigits t

/-- What a text denotes that is neither a call nor a join. -/
def evalPlain (vars : Variables) (t : Text) : Except Error Value :=
  match t.literal? with
  | some inner => .ok (.text inner)
  | none =>
    match arithmetic? vars t with
    | some result => result.map .integer
    | none =>
      if isSigned t then
        match Integer.read? t with
        | some n => .ok (.integer n)
        | none => .error { kind := .overflow }
      else if t.isName then .ok (vars.fetch t.upper)
      else .ok (.text t)

/-- What a text denotes, blanks around it put aside. -/
def evalText (vars : Variables) (t : Text) : Except Error Value :=
  match _h : callArgument? t.trim with
  | some inner => (evalText vars inner).map Value.character
  | none =>
    if _hj : isJoin t.trim = true then do
      let parts ← (joined t.trim).attach.mapM fun ⟨piece, _hp⟩ =>
        match piece.literal? with
        | some inner => .ok inner
        | none => (evalText vars piece).map Value.print
      return .text parts.flatten
    else evalPlain vars t.trim
termination_by t.length
decreasing_by
  · have := length_lt_of_callArgument? _h
    have := t.length_trim_le
    omega
  · have := length_lt_of_isJoin _hj _hp
    have := t.length_trim_le
    omega

def eval (vars : Variables) (e : Expression) : Except Error Value := evalText vars e.source

def evalInteger (vars : Variables) (e : Expression) : Except Error Int32 := do
  (← e.eval vars).toInteger

end Expression

end LineBasic
