import LineBasic.Text.Name
import LineBasic.Value.Integer

/-!
# Arithmetic terms

Arithmetic is a flat chain: operands with operators between them, at most one
minus sign before an operand, and gaps anywhere between tokens. There are no
levels of precedence, so a chain is a list of terms, each with the operator that
applies it; the first term is added to zero. A text that is no such chain has no
terms.
-/

namespace LineBasic

/-- A piece of an arithmetic text. -/
inductive Token where
  | operator (o : Operator)
  | operand (t : Text)
  deriving DecidableEq, Repr

/-- An operand, whether a minus sign stands before it, and the operator that
applies it. -/
structure Term where
  operator : Operator
  negated : Bool
  operand : Text
  deriving DecidableEq, Repr

namespace Token

/-- The operand at the start of a text and the text behind it: a run of letters
and digits with at most one dollar sign after it. -/
def operandOf (t : Text) : Text × Text :=
  match t.dropWhile Char.isAlphanum with
  | '$' :: rest => (t.takeWhile Char.isAlphanum ++ ['$'], rest)
  | rest => (t.takeWhile Char.isAlphanum, rest)

/-- An operand and what is behind it make up the text. -/
theorem operandOf_append (t : Text) : (operandOf t).1 ++ (operandOf t).2 = t := by
  have h := List.takeWhile_append_dropWhile (p := Char.isAlphanum) (l := t)
  unfold operandOf
  split
  · next hs => rw [hs] at h; simpa using h
  · exact h

theorem length_operandOf_lt {c : Char} {t : Text} (h : c.isAlphanum = true) :
    (operandOf (c :: t)).2.length < t.length + 1 := by
  have hd : ((c :: t).dropWhile Char.isAlphanum).length ≤ t.length := by
    rw [List.dropWhile_cons_of_pos h]
    exact (List.dropWhile_suffix _).length_le
  unfold operandOf
  split
  · next hs =>
    have := congrArg List.length hs
    simp only [List.length_cons] at this
    dsimp only
    omega
  · dsimp only
    omega

/-- The tokens of a text, unless it has a character that belongs to none. -/
def scan? (t : Text) : Option (List Token) :=
  match t with
  | [] => some []
  | c :: rest =>
    if isGap c then scan? rest
    else
      match Operator.ofChar? c with
      | some o => (scan? rest).map (.operator o :: ·)
      | none =>
        if _h : c.isAlphanum = true then
          (scan? (operandOf (c :: rest)).2).map (.operand (operandOf (c :: rest)).1 :: ·)
        else none
termination_by t.length
decreasing_by
  all_goals simp only [List.length_cons]
  · omega
  · omega
  · exact length_operandOf_lt _h

end Token

namespace Term

/-- The terms of a list of tokens. Before an operand, `pending` holds the
operator that is to apply it and whether a minus sign was read. -/
def ofTokens? : Option (Operator × Bool) → List Token → Option (List Term)
  | none, [] => some []
  | none, .operator o :: rest => ofTokens? (some (o, false)) rest
  | some (o, false), .operator .minus :: rest => ofTokens? (some (o, true)) rest
  | some (o, negated), .operand t :: rest => (ofTokens? none rest).map (⟨o, negated, t⟩ :: ·)
  | _, _ => none

/-- The terms of an arithmetic text. -/
def ofText? (t : Text) : Option (List Term) :=
  (Token.scan? t).bind (ofTokens? (some (.plus, false)))

end Term

end LineBasic
