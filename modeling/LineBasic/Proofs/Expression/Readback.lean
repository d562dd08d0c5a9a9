import LineBasic.Machine.Perform
import LineBasic.Proofs.Expression.Arithmetic
import LineBasic.Proofs.Machine.Performance

/-!
# Reading printed integers

A printed integer is a chain of one term: its digits, with the minus sign of a negative
number before them. The digits have to fit before the sign applies to them, and the least
integer is the only one whose digits do not. Every other integer is denoted by its printed
form, so what was printed of a variable can be typed again where an integer is wanted.

Main statement: `Expression.printed_integer_denotes`.
-/

namespace LineBasic

namespace Token

theorem isOperand_of_isDigits {w : Text} (h : Decimal.isDigits w = true) : IsOperand w := by
  rw [Decimal.isDigits, Bool.and_eq_true, List.all_eq_true] at h
  refine ⟨w, by simpa using h.1, ?_, .inl rfl⟩
  intro c hc
  simp [Char.isAlphanum, h.2 c hc]

theorem isOperand_of_isName {w : Text} (h : w.isName = true) : IsOperand w := by
  refine ⟨w.stem, ?_, ?_, ?_⟩
  · intro none
    rw [Text.isName, none] at h
    cases h
  · rw [Text.isName] at h
    split at h
    · cases h
    · next c rest stem =>
      rw [Bool.and_eq_true, List.all_eq_true] at h
      intro d hd
      rw [stem] at hd
      rcases List.mem_cons.mp hd with rfl | hd
      · simp [Char.isAlphanum, h.1]
      · exact h.2 d hd
  · rw [Text.stem]
    split
    · next last =>
      obtain ⟨front, rfl⟩ := List.getLast?_eq_some_iff.mp last
      exact .inr (by rw [List.dropLast_concat])
    · exact .inl rfl

end Token

namespace Term

/-- The only term of a printed integer. -/
def ofInt (n : Int) : Term := ⟨.plus, decide (n < 0), Decimal.print n.natAbs⟩

/-- A single term is rendered by its operand with the sign before it. -/
theorem renders_single {term : Term} (operand : Token.IsOperand term.operand)
    (first : term.operator = .plus) :
    Renders [term] ((if term.negated then ['-'] else []) ++ term.operand) := by
  have nothing : ∀ c ∈ ([] : Text), isGap c = true := by simp
  have spells : Token.Spells [.operand term.operand] term.operand := by
    simpa [Token.spelling] using (Token.Spells.done nothing).follows (.operand term.operand)
  refine ⟨by simpa using operand, term, [], rfl, first, ?_⟩
  rw [List.flatMap_nil, List.append_nil, signed]
  cases term.negated with
  | false => exact spells
  | true => exact spells.follows (.operator .minus)

/-- A name is a chain of one term. -/
theorem ofText?_of_isName {name : Text} (h : name.isName = true) :
    ofText? name = some [⟨.plus, false, name⟩] :=
  ofText?_eq_some_iff.mpr (renders_single (Token.isOperand_of_isName h) rfl)

theorem renders_printInt (n : Int) : Renders [ofInt n] (Decimal.printInt n) := by
  have operand : Token.IsOperand (ofInt n).operand :=
    Token.isOperand_of_isDigits (Decimal.isDigits_print n.natAbs)
  have rendered := renders_single operand rfl
  cases n with
  | ofNat k =>
      have natural : ¬ (k : Int) < 0 := by omega
      simpa [ofInt, Decimal.printInt, natural] using rendered
  | negSucc k => simpa [ofInt, Decimal.printInt, Int.negSucc_lt_zero] using rendered

/-- The digits have to fit before the sign applies to them. -/
theorem total_ofInt {n : Int} (lower : -2147483648 ≤ n) (upper : n ≤ 2147483647) :
    total (fun w => Decimal.value w) 0 [ofInt n] =
      if n = -2147483648 then .error { kind := .overflow } else .ok n := by
  have fits {k : Int} (h : -2147483648 ≤ k ∧ k ≤ 2147483647) : Integer.fit k = .ok k := if_pos h
  rw [total, ofInt, Decimal.value_print]
  by_cases least : n = -2147483648
  · subst least
    rfl
  · rw [if_neg least, fits (by omega)]
    by_cases negative : n < 0
    · have digits : -(n.natAbs : Int) = n := by omega
      simp only [bind, Except.bind, negative, decide_true, if_true, digits]
      rw [fits ⟨lower, upper⟩]
      simp only [Operator.exact, Int.zero_add]
      rw [fits ⟨lower, upper⟩]
      rfl
    · have digits : (n.natAbs : Int) = n := by omega
      simp only [bind, Except.bind, negative, decide_false, Bool.false_eq_true, if_false, digits,
        Operator.exact, Int.zero_add]
      rw [fits ⟨lower, upper⟩]
      rfl

end Term

namespace Expression

variable {vars : Variables} {n : Int32}

/-- An arithmetic text has the value that its terms compute, or fails with their error. -/
theorem evalText_of_total {t : Text} {terms : List Term} (v : Text → Int)
    (read : Term.ofText? t = some terms)
    (denotes : ∀ term ∈ terms, Denotes vars term.operand (v term.operand)) :
    (Term.total v 0 terms = .ok n.toInt → evalText vars t = .ok (.integer n)) ∧
      ∀ e, Term.total v 0 terms = .error e → evalText vars t = .error e := by
  obtain ⟨x, result, exact⟩ := evalText_of_ofText? read denotes
  rw [result]
  constructor
  · intro total
    cases x with
    | error e => cases exact.trans total
    | ok a =>
        obtain rfl : a = n := Int32.toInt_inj.mp (Except.ok.inj (exact.trans total))
        rfl
  · intro e total
    rw [map_eq_error_iff.mp (exact.trans total)]
    rfl

/-- What the printed form of an integer evaluates to. -/
theorem evalText_print (vars : Variables) (n : Int32) :
    evalText vars (Integer.print n) =
      if n = Int32.minValue then .error { kind := .overflow } else .ok (.integer n) := by
  have least : n.toInt = -2147483648 ↔ n = Int32.minValue := by
    rw [← Int32.toInt_inj]
    rfl
  have denotes : ∀ term ∈ [Term.ofInt n.toInt], Denotes vars term.operand
      (Decimal.value term.operand) := by
    intro term hterm
    rw [List.mem_singleton.mp hterm]
    exact .digits (Decimal.isDigits_print _)
  have value := evalText_of_total (n := n) (fun w => Decimal.value w)
    (Term.ofText?_eq_some_iff.mpr (Term.renders_printInt n.toInt)) denotes
  have total := Term.total_ofInt n.le_toInt (Int.le_of_lt_add_one n.toInt_lt)
  by_cases h : n = Int32.minValue
  · rw [if_pos (least.mpr h)] at total
    rw [if_pos h]
    exact value.2 _ total
  · rw [if_neg (mt least.mp h)] at total
    rw [if_neg h]
    exact value.1 total

/-- A name that holds an integer evaluates to it. -/
theorem evalText_name {name : Text} (isName : name.isName = true)
    (holds : vars.fetch name.upper = .integer n) : evalText vars name = .ok (.integer n) := by
  have denotes : Denotes vars name n.toInt := by
    rw [Variables.fetch] at holds
    cases entry : vars.entries[name.upper]? with
    | some v =>
        rw [entry] at holds
        exact .held isName (entry.trans (congrArg some holds))
    | none =>
        rw [entry] at holds
        obtain rfl : 0 = n := Value.integer.inj holds
        refine .unassigned isName ?_
        rw [Variables.contains, Std.TreeMap.contains_eq_isSome_getElem?, entry]
        rfl
  have fits : Integer.fit n.toInt = .ok n.toInt :=
    if_pos ⟨n.le_toInt, Int.le_of_lt_add_one n.toInt_lt⟩
  refine (evalText_of_total (fun _ => n.toInt) (Term.ofText?_of_isName isName)
    (by simpa using denotes)).1 ?_
  simp only [Term.total, fits, bind, Except.bind, Bool.false_eq_true, if_false, Operator.exact,
    Int.zero_add]

/-- What is printed of a variable that holds an integer denotes this integer, unless it is
the least one: that overflows, whatever the variables hold. So the printed text can be
assigned again, and it can stand for the bounds and the step of a loop. -/
theorem printed_integer_denotes (n : Int32) :
    let shown := (Value.integer n).print
    (∀ vars, evalText vars shown =
      if n = Int32.minValue then .error { kind := .overflow } else .ok (.integer n)) ∧
    ∀ m : Machine,
      (∀ name : Text, name.isName = true → m.vars.fetch name.upper = .integer n →
        m.perform (.print [.value ⟨name⟩, .newline]) =
          (m, .ok ((shown ++ ['\n']).map .character))) ∧
      (n = Int32.minValue → ∀ other,
        m.perform (.assign other ⟨shown⟩) = (m, .error { kind := .overflow })) ∧
      (n ≠ Int32.minValue → ∀ other, m.vars.HasRoom other →
        m.perform (.assign other ⟨shown⟩) =
          ({ m with vars := m.vars.insert other (.integer n) }, .ok []) ∧
        ∀ r, m.run = some r → (Loop.outside other m.loops).size < Stack.capacity →
          m.perform (.loop other ⟨shown⟩ ⟨shown⟩ (some ⟨shown⟩)) =
            ({ m with
                vars := m.vars.insert other (.integer n)
                loops := ⟨{ name := other, limit := n, step := n, resume := r.next } ::
                  (Loop.outside other m.loops).entries⟩ }, .ok [])) := by
  intro shown
  refine ⟨fun vars => evalText_print vars n, fun m => ⟨?_, ?_, ?_⟩⟩
  · intro name isName holds
    have evaluated : eval m.vars ⟨name⟩ = .ok (.integer n) := evalText_name isName holds
    have parts : m.printParts [.value ⟨name⟩, .newline] = .ok (shown ++ ['\n']) := by
      simp [Machine.printParts, Machine.printPart, evaluated, shown, bind, Except.bind, pure,
        Except.pure]
    simp only [Machine.perform, Machine.commands, parts, bind, Except.bind, pure, Except.pure]
    rfl
  · intro least other
    have evaluated : eval m.vars ⟨shown⟩ = .error { kind := .overflow } :=
      (evalText_print m.vars n).trans (if_pos least)
    simp only [Machine.perform, evaluated, bind, Except.bind]
  · intro large other room
    have evaluated : eval m.vars ⟨shown⟩ = .ok (.integer n) :=
      (evalText_print m.vars n).trans (if_neg large)
    have integer : m.integer ⟨shown⟩ = .ok n := by
      rw [Machine.integer, evalInteger, evaluated]
      rfl
    constructor
    · simp only [Machine.perform, evaluated, bind, Except.bind,
        Variables.store_of_hasRoom room (.integer n)]
    · intro r running free
      have stride : m.stepValue (some ⟨shown⟩) = .ok n := integer
      have prepared := Machine.prepared_eq_ok_iff.mpr ⟨n, integer, integer, stride, room, rfl⟩
      rw [Machine.perform, Machine.openLoop_of_running running, prepared]
      exact if_pos free

/-- A running program in which `X` holds one more than the least integer. -/
def nearLeast : Machine :=
  { vars := Variables.empty.insert ['X'] (.integer (-2147483647))
    run := some { lines := #[10, 20], next := 1 } }

theorem printed_integer_denotes_nearLeast :
    nearLeast.perform (.print [.value ⟨['x']⟩, .newline]) =
        (nearLeast, .ok ("-2147483647\n".toList.map .character)) ∧
      (nearLeast.perform (.assign ['Y'] ⟨"-2147483647".toList⟩)).1.vars =
        nearLeast.vars.insert ['Y'] (.integer (-2147483647)) ∧
      (nearLeast.perform (.loop ['I'] ⟨"-2147483647".toList⟩ ⟨"-2147483647".toList⟩
        (some ⟨"-2147483647".toList⟩))).1.loops = ⟨[⟨['I'], -2147483647, -2147483647, 1⟩]⟩ := by
  have shown : (Value.integer (-2147483647)).print = "-2147483647".toList := by decide +kernel
  obtain ⟨-, denotes⟩ := printed_integer_denotes (-2147483647)
  rw [shown] at denotes
  obtain ⟨printed, -, typed⟩ := denotes nearLeast
  have room (name : Text) : nearLeast.vars.HasRoom name := .inr (by decide +kernel)
  have typed := typed (by decide)
  refine ⟨printed ['x'] rfl (Variables.fetch_insert_self _ _ _), ?_, ?_⟩
  · rw [(typed ['Y'] (room _)).1]
  · rw [(typed ['I'] (room _)).2 _ rfl (by decide)]
    rfl

/-- It is not so that every printed integer denotes itself: the least one overflows. -/
theorem not_printed_integer_denotes :
    ¬ ∀ (n : Int32) (vars : Variables),
      evalText vars (Value.integer n).print = .ok (.integer n) := by
  intro denotes
  have least := (evalText_print .empty Int32.minValue).symm.trans (denotes Int32.minValue .empty)
  rw [if_pos rfl] at least
  cases least

end Expression

end LineBasic
