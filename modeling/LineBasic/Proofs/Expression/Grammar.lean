import LineBasic.Expression.Terms
import LineBasic.Proofs.Text.Trim

/-!
# The grammar of arithmetic

An arithmetic text is a chain of signed operands with operators between them. What is
written before the first operand is its sign only; it counts as added to zero. Gaps may
stand around all tokens, and none has to: an operand is as long as it can be, and what
follows it in a chain never continues it.

Main statement: `Term.ofText?_eq_some_iff`. Reading terms from a text inverts writing
them, so a text is read as the terms that it renders, and every other text is refused.
-/

namespace LineBasic

theorem Operator.isGap_sign (o : Operator) : isGap o.sign = false := by cases o <;> decide

namespace Token

/-- A run of letters and digits with at most one dollar sign behind it. -/
def IsOperand (w : Text) : Prop :=
  ∃ run : Text, run ≠ [] ∧ (∀ c ∈ run, c.isAlphanum = true) ∧ (w = run ∨ w = run ++ ['$'])

def spelling : Token → Text
  | operator o => [o.sign]
  | operand t => t

/-- The text is the tokens in order, with any gaps around them. -/
inductive Spells : List Token → Text → Prop where
  | done {gaps : Text} (blank : ∀ c ∈ gaps, isGap c = true) : Spells [] gaps
  | token {gaps : Text} (blank : ∀ c ∈ gaps, isGap c = true) (token : Token)
      {tokens : List Token} {t : Text} (rest : Spells tokens t) :
      Spells (token :: tokens) (gaps ++ (token.spelling ++ t))

/-- No operand before the text would go on into it. -/
def Stops (t : Text) : Prop := ∀ c ∈ t.head?, c.isAlphanum = false ∧ c ≠ '$'

variable {tokens : List Token} {t : Text}

theorem Spells.gap {c : Char} (h : Spells tokens t) (gap : isGap c = true) :
    Spells tokens (c :: t) := by
  have blank {gaps : Text} (h : ∀ d ∈ gaps, isGap d = true) : ∀ d ∈ c :: gaps, isGap d = true := by
    intro d hd
    rcases List.mem_cons.mp hd with rfl | hd
    · exact gap
    · exact h d hd
  cases h with
  | done h => exact .done (blank h)
  | token h token rest => exact .token (blank h) token rest

theorem Spells.follows (h : Spells tokens t) (token : Token) :
    Spells (token :: tokens) (token.spelling ++ t) :=
  have nothing : ∀ c ∈ ([] : Text), isGap c = true := by simp
  .token nothing token h

theorem isOperand_operandOf {c : Char} (h : c.isAlphanum = true) (t : Text) :
    IsOperand (operandOf (c :: t)).1 := by
  have filled : (c :: t).takeWhile Char.isAlphanum ≠ [] := by
    rw [List.takeWhile_cons_of_pos h]
    exact List.cons_ne_nil _ _
  have run := List.all_eq_true.mp (List.all_takeWhile (p := Char.isAlphanum) (l := c :: t))
  rw [operandOf]
  split
  · exact ⟨_, filled, run, .inr rfl⟩
  · exact ⟨_, filled, run, .inl rfl⟩

/-- A text is spelled by the tokens that are read from it. -/
theorem spells_of_scan? (h : scan? t = some tokens) :
    Spells tokens t ∧ ∀ w, .operand w ∈ tokens → IsOperand w := by
  fun_induction scan? t generalizing tokens with
  | case1 =>
      obtain rfl := Option.some.inj h
      exact ⟨.done (by simp), by simp⟩
  | case2 c rest gap ih =>
      obtain ⟨spells, operands⟩ := ih h
      exact ⟨spells.gap gap, operands⟩
  | case3 c rest gap o sign ih =>
      obtain ⟨tokens, hrest, rfl⟩ := Option.map_eq_some_iff.mp h
      obtain ⟨spells, operands⟩ := ih hrest
      obtain rfl := Operator.ofChar?_eq_some_iff.mp sign
      exact ⟨spells.follows (.operator o), by simpa using operands⟩
  | case4 c rest gap sign alphanum ih =>
      obtain ⟨tokens, hrest, rfl⟩ := Option.map_eq_some_iff.mp h
      obtain ⟨spells, operands⟩ := ih hrest
      refine ⟨?_, ?_⟩
      · have := spells.follows (.operand (operandOf (c :: rest)).1)
        rwa [spelling, operandOf_append] at this
      · intro w hw
        rcases List.mem_cons.mp hw with hw | hw
        · cases hw
          exact isOperand_operandOf alphanum rest
        · exact operands w hw
  | case5 => cases h

theorem scan?_gap {c : Char} (h : isGap c = true) (t : Text) : scan? (c :: t) = scan? t := by
  rw [scan?, if_pos h]

theorem scan?_gaps {gaps : Text} (h : ∀ c ∈ gaps, isGap c = true) (t : Text) :
    scan? (gaps ++ t) = scan? t := by
  induction gaps with
  | nil => rfl
  | cons c gaps ih =>
      rw [List.cons_append, scan?_gap (h c List.mem_cons_self)]
      exact ih fun d hd => h d (List.mem_cons_of_mem c hd)

theorem scan?_sign (o : Operator) (t : Text) :
    scan? (o.sign :: t) = (scan? t).map (.operator o :: ·) := by
  rw [scan?, if_neg (by simp [o.isGap_sign])]
  simp only [Operator.ofChar?_sign]

theorem stops_of_gaps {gaps : Text} (h : ∀ c ∈ gaps, isGap c = true) : Stops gaps := by
  intro c hc
  have gap := h c (List.mem_of_mem_head? hc)
  refine ⟨isAlphanum_eq_false_of_isBlank (isBlank_of_isGap gap), ?_⟩
  rintro rfl
  exact absurd gap (by decide)

/-- Where an operand ends is not changed by what does not go on into it. -/
theorem operandOf_append_of_stops (s : Text) (stops : Stops t) :
    operandOf (s ++ t) = ((operandOf s).1, (operandOf s).2 ++ t) := by
  have ends : ∀ c ∈ t.head?, c.isAlphanum = false := fun c hc => (stops c hc).1
  have drop := Text.dropWhile_append_of_head? ends s
  have take := Text.takeWhile_append_of_head? ends s
  rw [operandOf, operandOf, drop, take]
  cases s.dropWhile Char.isAlphanum with
  | nil =>
      cases t with
      | nil => rfl
      | cons c u =>
          rw [List.nil_append]
          split
          · next h => exact absurd (List.cons.inj h).1 (stops c rfl).2
          · rfl
  | cons d v =>
      rw [List.cons_append]
      by_cases dollar : d = '$'
      · subst d
        rfl
      · split
        · next h => exact absurd (List.cons.inj h).1 dollar
        · split
          · next h => exact absurd (List.cons.inj h).1 dollar
          · rfl

theorem operandOf_of_isOperand {w : Text} (hw : IsOperand w) : operandOf w = (w, []) := by
  obtain ⟨run, -, alphanum, hw⟩ := hw
  rw [operandOf]
  rcases hw with rfl | rfl
  · have behind : (w ++ []).dropWhile Char.isAlphanum = [] := List.dropWhile_append_of_pos alphanum
    have front : (w ++ []).takeWhile Char.isAlphanum = w ++ [] :=
      List.takeWhile_append_of_pos alphanum
    rw [List.append_nil] at behind front
    rw [behind, front]
  · rw [List.dropWhile_append_of_pos alphanum, List.takeWhile_append_of_pos alphanum,
      List.dropWhile_cons_of_neg (by decide), List.takeWhile_cons_of_neg (by decide),
      List.append_nil]
    rfl

theorem operandOf_append_eq {w : Text} (hw : IsOperand w) (stops : Stops t) :
    operandOf (w ++ t) = (w, t) := by
  rw [operandOf_append_of_stops w stops, operandOf_of_isOperand hw, List.nil_append]

theorem scan?_operand {w : Text} (hw : IsOperand w) (stops : Stops t) :
    scan? (w ++ t) = (scan? t).map (.operand w :: ·) := by
  have read := operandOf_append_eq hw stops
  obtain ⟨run, filled, alphanum, hw⟩ := hw
  obtain ⟨c, rest, whole, first⟩ : ∃ c rest, w ++ t = c :: rest ∧ c.isAlphanum = true := by
    obtain ⟨c, run, rfl⟩ := List.exists_cons_of_ne_nil filled
    rcases hw with rfl | rfl
    · exact ⟨c, _, rfl, alphanum c List.mem_cons_self⟩
    · exact ⟨c, _, rfl, alphanum c List.mem_cons_self⟩
  have gap : isGap c = false := by
    rw [Bool.eq_false_iff]
    intro gap
    rw [isAlphanum_eq_false_of_isBlank (isBlank_of_isGap gap)] at first
    cases first
  have sign : Operator.ofChar? c = none := by
    cases sign : Operator.ofChar? c with
    | none => rfl
    | some o =>
        obtain rfl := Operator.ofChar?_eq_some_iff.mp sign
        cases o <;> exact absurd first (by decide)
  rw [whole] at read ⊢
  rw [scan?, if_neg (by simp [gap])]
  simp only [sign, first, dite_true, read]

/-- Gaps behind a text add no token, nor do they make one longer. -/
theorem scan?_append_gaps {gaps : Text} (h : ∀ c ∈ gaps, isGap c = true) (s : Text) :
    scan? (s ++ gaps) = scan? s := by
  fun_induction scan? s with
  | case1 =>
      rw [List.nil_append, ← List.append_nil gaps, scan?_gaps h, scan?]
  | case2 c rest gap ih => rw [List.cons_append, scan?_gap gap, ih]
  | case3 c rest gap o sign ih =>
      obtain rfl := Operator.ofChar?_eq_some_iff.mp sign
      rw [List.cons_append, scan?_sign, ih]
  | case4 c rest gap sign alphanum ih =>
      have longer := operandOf_append_of_stops (c :: rest) (stops_of_gaps h)
      rw [List.cons_append] at longer ⊢
      rw [scan?, if_neg gap]
      simp only [sign, alphanum, dite_true, longer, ih]
  | case5 c rest gap sign alphanum =>
      rw [List.cons_append, scan?, if_neg gap]
      simp only [sign, alphanum, Bool.false_eq_true, dite_false]

/-- What stands in a text that has tokens. -/
theorem mem_of_scan? (h : scan? t = some tokens) {c : Char} (hc : c ∈ t) :
    isGap c = true ∨ (∃ o : Operator, c = o.sign) ∨ c.isAlphanum = true ∨ c = '$' := by
  obtain ⟨spells, operands⟩ := spells_of_scan? h
  clear h
  induction spells with
  | done blank => exact .inl (blank c hc)
  | token blank token rest ih =>
      rcases List.mem_append.mp hc with hc | hc
      · exact .inl (blank c hc)
      rcases List.mem_append.mp hc with hc | hc
      · cases token with
        | operator o => exact .inr (.inl ⟨o, List.mem_singleton.mp hc⟩)
        | operand w =>
            obtain ⟨run, -, alphanum, hw⟩ := operands w List.mem_cons_self
            rcases hw with hw | hw
            · exact .inr (.inr (.inl (alphanum c (hw ▸ hc))))
            · have hc : c ∈ run ++ ['$'] := hw ▸ hc
              rcases List.mem_append.mp hc with hc | hc
              · exact .inr (.inr (.inl (alphanum c hc)))
              · exact .inr (.inr (.inr (List.mem_singleton.mp hc)))
      · exact ih hc fun w hw => operands w (List.mem_cons_of_mem _ hw)

end Token

namespace Term

open Token

/-- The operand with the sign that stands before it. -/
def signed (term : Term) : List Token :=
  (if term.negated then [.operator .minus] else []) ++ [.operand term.operand]

/-- The term as it is linked to those before it. -/
def linked (term : Term) : List Token := .operator term.operator :: term.signed

/-- The text is a chain of the terms. -/
def Renders (terms : List Term) (t : Text) : Prop :=
  (∀ term ∈ terms, IsOperand term.operand) ∧
    ∃ first rest, terms = first :: rest ∧ first.operator = .plus ∧
      Spells (first.signed ++ rest.flatMap linked) t

variable {terms : List Term} {t : Text}

theorem stops_of_spells_linked (h : Spells (terms.flatMap linked) t) : Stops t := by
  intro c hc
  cases terms with
  | nil =>
      cases h with
      | done blank => exact stops_of_gaps blank c hc
  | cons term terms =>
      cases h with
      | @token gaps blank _ _ t rest =>
          cases gaps with
          | nil =>
              obtain rfl : term.operator.sign = c := Option.some.inj hc
              cases term.operator <;> decide
          | cons d gaps => exact stops_of_gaps blank c hc

/-- A signed operand is read as such in front of what can be read and does not continue
it. -/
theorem scan?_signed {term : Term} (operand : IsOperand term.operand) {tokens : List Token}
    (h : Spells (term.signed ++ tokens) t)
    (rest : ∀ t, Spells tokens t → Stops t ∧ scan? t = some tokens) :
    scan? t = some (term.signed ++ tokens) := by
  have plain {t : Text} (h : Spells (.operand term.operand :: tokens) t) :
      scan? t = some (.operand term.operand :: tokens) := by
    cases h with
    | token blank _ spells =>
        obtain ⟨stops, read⟩ := rest _ spells
        rw [scan?_gaps blank, spelling, scan?_operand operand stops, read]
        rfl
  rw [signed] at h ⊢
  cases negated : term.negated with
  | false =>
      simp only [negated, Bool.false_eq_true, if_false] at h ⊢
      exact plain h
  | true =>
      simp only [negated, if_true] at h ⊢
      cases h with
      | token blank _ spells =>
          rw [scan?_gaps blank]
          exact (scan?_sign .minus _).trans (congrArg (Option.map _) (plain spells))

theorem scan?_linked (operands : ∀ term ∈ terms, IsOperand term.operand)
    (h : Spells (terms.flatMap linked) t) :
    Stops t ∧ scan? t = some (terms.flatMap linked) := by
  refine ⟨stops_of_spells_linked h, ?_⟩
  induction terms generalizing t with
  | nil =>
      cases h with
      | done blank =>
          rw [← List.append_nil t, scan?_gaps blank, scan?]
          rfl
  | cons term terms ih =>
      have operands' : ∀ x ∈ terms, IsOperand x.operand :=
        fun x hx => operands x (List.mem_cons_of_mem term hx)
      cases h with
      | token blank _ spells =>
          have read := scan?_signed (operands term List.mem_cons_self) spells fun t ht =>
            ⟨stops_of_spells_linked ht, ih operands' ht⟩
          rw [scan?_gaps blank]
          exact (scan?_sign _ _).trans (congrArg (Option.map _) read)

theorem ofTokens?_signed (o : Operator) (term : Term) (tokens : List Token) :
    ofTokens? (some (o, false)) (term.signed ++ tokens) =
      (ofTokens? none tokens).map ({ term with operator := o } :: ·) := by
  obtain ⟨o', negated, w⟩ := term
  cases negated <;> rfl

theorem ofTokens?_linked (terms : List Term) :
    ofTokens? none (terms.flatMap linked) = some terms := by
  induction terms with
  | nil => rfl
  | cons term terms ih =>
      rw [List.flatMap_cons, linked, List.cons_append, ofTokens?, ofTokens?_signed, ih]
      rfl

/-- The tokens write the terms, the first of them with an operator or a minus sign that was
read before. -/
def Completes : Option (Operator × Bool) → List Token → List Term → Prop
  | none, tokens, terms => tokens = terms.flatMap linked
  | some (o, negated), tokens, terms =>
    ∃ first rest, terms = first :: rest ∧ first.operator = o ∧
      (if negated then [.operator .minus] else []) ++ tokens =
        first.signed ++ rest.flatMap linked

theorem completes_of_ofTokens? {pending : Option (Operator × Bool)} {tokens : List Token}
    (h : ofTokens? pending tokens = some terms) : Completes pending tokens terms := by
  fun_induction ofTokens? pending tokens generalizing terms with
  | case1 =>
      obtain rfl := Option.some.inj h
      rfl
  | case2 o rest ih =>
      obtain ⟨first, terms, rfl, rfl, tokens⟩ := ih h
      exact congrArg (Token.operator _ :: ·) tokens
  | case3 o rest ih =>
      obtain ⟨first, terms, rfl, rfl, tokens⟩ := ih h
      exact ⟨first, terms, rfl, rfl, tokens⟩
  | case4 o negated w rest ih =>
      obtain ⟨terms, hrest, rfl⟩ := Option.map_eq_some_iff.mp h
      have tokens : rest = terms.flatMap linked := ih hrest
      refine ⟨⟨o, negated, w⟩, terms, rfl, rfl, ?_⟩
      rw [signed, List.append_assoc, tokens]
      rfl
  | case5 => cases h

/-- The terms of a text are those that it renders, and a text that renders none has none. -/
theorem ofText?_eq_some_iff : ofText? t = some terms ↔ Renders terms t := by
  constructor
  · intro h
    obtain ⟨tokens, scanned, h⟩ := Option.bind_eq_some_iff.mp h
    obtain ⟨spells, operands⟩ := spells_of_scan? scanned
    obtain ⟨first, rest, rfl, plus, rfl⟩ := completes_of_ofTokens? h
    refine ⟨?_, first, rest, rfl, plus, spells⟩
    intro term hterm
    apply operands
    have own : .operand term.operand ∈ term.signed := by simp [signed]
    rcases List.mem_cons.mp hterm with rfl | hterm
    · exact List.mem_append_left _ own
    · refine List.mem_append_right _ (List.mem_flatMap.mpr ⟨term, hterm, ?_⟩)
      exact List.mem_cons_of_mem _ own
  · rintro ⟨operands, first, rest, rfl, plus, spells⟩
    have read := scan?_signed (operands first List.mem_cons_self) spells fun _ ht =>
      scan?_linked (fun term hterm => operands term (List.mem_cons_of_mem first hterm)) ht
    rw [ofText?, read, Option.bind_some, ofTokens?_signed, ofTokens?_linked, ← plus]
    rfl

end Term

end LineBasic
