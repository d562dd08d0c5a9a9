import LineBasic.Proofs.Expression.Calling
import LineBasic.Proofs.Expression.Grammar
import LineBasic.Proofs.Failing

/-!
# The value of arithmetic

A chain of terms is computed from left to right on exact integers, and every number on
the way has to fit: each literal, each negation and each result. The first one that does
not, or the first division by zero, is what the whole chain fails with.

Main statement: `Expression.arithmetic_reads_and_evaluates`. A text has the terms that it
renders, and if its operands denote integers, it evaluates to what its terms compute: no
other rule of evaluation takes it.
-/

namespace LineBasic

/-- An exact number, unless it is out of range. -/
def Integer.fit (n : Int) : Except Error Int :=
  if -2147483648 ≤ n ∧ n ≤ 2147483647 then .ok n else .error { kind := .overflow }

/-- The exact result of an operation, unless it is out of range or there is none. -/
def Operator.exact : Operator → Int → Int → Except Error Int
  | plus, a, b => Integer.fit (a + b)
  | minus, a, b => Integer.fit (a - b)
  | times, a, b => Integer.fit (a * b)
  | divide, a, b =>
    if b = 0 then .error { kind := .divisionByZero } else Integer.fit (a.tdiv b)

/-- What is computed so far with the terms applied to it in order, each operand standing
for its number. -/
def Term.total (value : Text → Int) (sum : Int) : List Term → Except Error Int
  | [] => .ok sum
  | term :: rest => do
    let n ← Integer.fit (value term.operand)
    let n ← if term.negated then Integer.fit (-n) else .ok n
    let sum ← term.operator.exact sum n
    total value sum rest

theorem Integer.map_checked (n : Int) : (checked n).map Int32.toInt = fit n := by
  rw [fit]
  cases h : checked n with
  | ok a =>
      obtain rfl := checked_eq_ok_iff.mp h
      have := a.le_toInt
      have := a.toInt_lt
      rw [if_pos ⟨by omega, by omega⟩]
      rfl
  | error e =>
      obtain ⟨range, rfl⟩ := checked_eq_error_iff.mp h
      rw [if_neg (by omega)]
      rfl

theorem Operator.map_apply (o : Operator) (a b : Int32) :
    (o.apply a b).map Int32.toInt = o.exact a.toInt b.toInt := by
  cases o with
  | plus => exact Integer.map_checked _
  | minus => exact Integer.map_checked _
  | times => exact Integer.map_checked _
  | divide =>
      have zero : b.toInt = 0 ↔ b = 0 := by rw [← Int32.toInt_zero, Int32.toInt_inj]
      rw [apply, exact]
      by_cases h : b = 0
      · rw [if_pos h, if_pos (zero.mpr h)]
        rfl
      · rw [if_neg h, if_neg (mt zero.mp h)]
        exact Integer.map_checked _

namespace Expression

/-- What an operand stands for: digits for their number, a name for the integer that it
holds, or for zero if it holds nothing. -/
inductive Denotes (vars : Variables) : Text → Int → Prop where
  | digits {w : Text} (digits : Decimal.isDigits w = true) : Denotes vars w (Decimal.value w)
  | held {w : Text} {n : Int32} (name : w.isName = true)
      (entry : vars.entries[w.upper]? = some (.integer n)) : Denotes vars w n.toInt
  | unassigned {w : Text} (name : w.isName = true) (absent : vars.contains w.upper = false) :
      Denotes vars w 0

variable {vars : Variables} {t : Text} {value : Text → Int}

theorem any_isDigit_head?_of_isName {w : Text} (h : w.isName = true) :
    w.head?.any Char.isDigit = false := by
  have letter {c : Char} (h : c.isAlpha = true) : c.isDigit = false := by
    have ranges : c.isAlpha =
        (decide (c.val ≥ 'A'.val ∧ c.val ≤ 'Z'.val)
          || (decide (c.val ≥ 'a'.val) && decide (c.val ≤ 'z'.val))) := rfl
    simp only [ranges, Bool.or_eq_true, Bool.and_eq_true, decide_eq_true_eq] at h
    simp only [Char.isDigit, Bool.and_eq_false_iff, decide_eq_false_iff_not]
    grind
  rw [Text.isName] at h
  split at h
  · cases h
  · next c rest stem =>
    have first : w.head? = some c := by
      rw [Text.stem] at stem
      split at stem
      · cases w with
        | nil => cases stem
        | cons d w =>
            cases w with
            | nil => cases stem
            | cons e w => exact congrArg List.head? stem
      · exact congrArg List.head? stem
    rw [first]
    exact letter (Bool.and_eq_true_iff.mp h).1

/-- The integer of an operand is the number that it stands for, if that fits. -/
theorem operand?_of_denotes {w : Text} {n : Int} (h : Denotes vars w n) :
    operand? vars w = some (Integer.checked n) := by
  have named (name : w.isName = true) {a : Int32} (fetch : vars.fetch w.upper = .integer a) :
      operand? vars w = some (Integer.checked a.toInt) := by
    rw [operand?, any_isDigit_head?_of_isName name, if_neg (by decide), if_pos name, fetch,
      Integer.checked_eq_ok_iff.mpr rfl]
  cases h with
  | digits digits =>
      have first : w.head?.any Char.isDigit = true := by
        cases w with
        | nil => cases digits
        | cons c w =>
            rw [Decimal.isDigits, Bool.and_eq_true, List.all_eq_true] at digits
            exact digits.2 c List.mem_cons_self
      rw [operand?, if_pos first, if_pos digits]
  | held name entry =>
      apply named name
      rw [Variables.fetch, entry]
      rfl
  | unassigned name absent =>
      have fetch : vars.fetch w.upper = .integer 0 := by
        rw [Variables.fetch, Std.TreeMap.getElem?_eq_none_of_contains_eq_false absent]
        rfl
      exact named name fetch

/-- The terms with the numbers of their operands. -/
def numbered (value : Text → Int) (terms : List Term) :
    List (Operator × Bool × Except Error Int32) :=
  terms.map fun term => (term.operator, term.negated, Integer.checked (value term.operand))

theorem operands?_of_denotes {terms : List Term} (read : Term.ofText? t = some terms)
    (denotes : ∀ term ∈ terms, Denotes vars term.operand (value term.operand)) :
    operands? vars t = some (numbered value terms) := by
  rw [operands?, read]
  clear read
  dsimp only [Option.bind_eq_bind, Option.bind_some]
  induction terms with
  | nil => rfl
  | cons term terms ih =>
      rw [List.mapM_cons, operand?_of_denotes (denotes term List.mem_cons_self),
        ih fun other h => denotes other (List.mem_cons_of_mem term h)]
      rfl

/-- Applying terms to integers of the range is applying them to exact numbers. -/
theorem map_foldlM_applyTerm (value : Text → Int) (terms : List Term) (sum : Int32) :
    ((numbered value terms).foldlM applyTerm sum).map Int32.toInt =
      Term.total value sum.toInt terms := by
  induction terms generalizing sum with
  | nil => rfl
  | cons term terms ih =>
      rw [numbered, List.map_cons, List.foldlM_cons, applyTerm, Term.total,
        ← Integer.map_checked, ← numbered]
      simp only [bind_assoc]
      refine map_bind_eq fun n => ?_
      have step (n : Int32) :
          (term.operator.apply sum n >>= (numbered value terms).foldlM applyTerm).map
              Int32.toInt =
            term.operator.exact sum.toInt n.toInt >>= fun sum => Term.total value sum terms := by
        rw [← Operator.map_apply]
        exact map_bind_eq ih
      cases term.negated with
      | false => exact step n
      | true =>
          simp only [if_true, bind_assoc]
          rw [← Integer.map_checked]
          exact map_bind_eq step

theorem mem_of_callArgument? {inner : Text} (h : callArgument? t = some inner) : '(' ∈ t := by
  obtain ⟨-, callee, rfl⟩ := exists_callee_of_callArgument? h
  simp [Callee.call]

theorem mem_of_literal? {inner : Text} (h : t.literal? = some inner) : '"' ∈ t := by
  rw [(Text.literal?_eq_some_iff.mp h).1]
  simp

theorem mem_of_isJoin (h : isJoin t = true) : '"' ∈ t := by
  rw [isJoin, Bool.and_eq_true, List.any_eq_true] at h
  obtain ⟨-, piece, hpiece, literal⟩ := h
  obtain ⟨inner, literal⟩ := Option.isSome_iff_exists.mp literal
  obtain ⟨whole, hwhole, rfl⟩ := List.mem_map.mp hpiece
  have quote := Text.mem_of_mem_trimWhile (mem_of_literal? literal)
  rw [← Nesting.append_splitFrom (· == '+') Nesting.outside t]
  rcases List.mem_cons.mp hwhole with rfl | hwhole
  · exact List.mem_append_left _ quote
  · obtain ⟨part, hpart, rfl⟩ := List.mem_map.mp hwhole
    exact List.mem_append_right _
      (List.mem_flatMap.mpr ⟨part, hpart, List.mem_cons_of_mem _ quote⟩)

/-- Without parentheses and quotes, a text is no call and no join. -/
theorem evalText_of_not_mem (call : '(' ∉ t) (join : '"' ∉ t) :
    evalText vars t = evalPlain vars t.trim := by
  have none : callArgument? t.trim = none := by
    rw [Option.eq_none_iff_forall_ne_some]
    exact fun inner h => call (Text.mem_of_mem_trimWhile (mem_of_callArgument? h))
  have single : isJoin t.trim ≠ true := fun h => join (Text.mem_of_mem_trimWhile (mem_of_isJoin h))
  exact evalText_of_single none (Bool.not_eq_true _ ▸ single)

/-- The blanks around an arithmetic text are gaps, which are no tokens. -/
theorem ofText?_trim {terms : List Term} (h : Term.ofText? t = some terms) :
    Term.ofText? t.trim = some terms := by
  obtain ⟨tokens, scanned, -⟩ := Option.bind_eq_some_iff.mp h
  have gap {c : Char} (hc : c ∈ t) (blank : isBlank c = true) : isGap c = true := by
    rcases Token.mem_of_scan? scanned hc with gap | ⟨o, rfl⟩ | alphanum | rfl
    · exact gap
    · cases o <;> exact absurd blank (by decide)
    · rw [isAlphanum_eq_false_of_isBlank blank] at alphanum
      cases alphanum
    · exact absurd blank (by decide)
  obtain ⟨before, after, whole, first, last⟩ := Text.exists_append_trimWhile isBlank t
  have around : ∀ c ∈ before ++ after, c ∈ t := by
    intro c hc
    rw [whole]
    rcases List.mem_append.mp hc with hc | hc
    · exact List.mem_append_left _ hc
    · exact List.mem_append_right _ (List.mem_append_right _ hc)
  have same : Token.scan? t = Token.scan? t.trim := by
    have front := Token.scan?_gaps fun c hc =>
      gap (around c (List.mem_append_left _ hc)) (first c hc)
    have back := Token.scan?_append_gaps fun c hc =>
      gap (around c (List.mem_append_right _ hc)) (last c hc)
    exact (congrArg Token.scan? whole).trans ((front _).trans (back _))
  rwa [Term.ofText?, ← same]

/-- An arithmetic text evaluates to what its terms compute. -/
theorem evalText_of_ofText? {terms : List Term} (read : Term.ofText? t = some terms)
    (denotes : ∀ term ∈ terms, Denotes vars term.operand (value term.operand)) :
    ∃ x : Except Error Int32, evalText vars t = x.map .integer ∧
      x.map Int32.toInt = Term.total value 0 terms := by
  obtain ⟨tokens, scanned, -⟩ := Option.bind_eq_some_iff.mp read
  have absent {c : Char} (other : c = '(' ∨ c = '"') : c ∉ t := by
    intro hc
    rcases Token.mem_of_scan? scanned hc with h | ⟨o, h⟩ | h | h
    · rcases other with rfl | rfl <;> exact absurd h (by decide)
    · cases o <;> rcases other with rfl | rfl <;> exact absurd h (by decide)
    · rcases other with rfl | rfl <;> exact absurd h (by decide)
    · rcases other with rfl | rfl <;> exact absurd h (by decide)
  have plain : t.trim.literal? = none := by
    rw [Option.eq_none_iff_forall_ne_some]
    exact fun inner h => absent (.inr rfl) (Text.mem_of_mem_trimWhile (mem_of_literal? h))
  refine ⟨_, ?_, map_foldlM_applyTerm value terms 0⟩
  rw [evalText_of_not_mem (absent (.inl rfl)) (absent (.inr rfl)), evalPlain, plain]
  simp only [arithmetic?, operands?_of_denotes (ofText?_trim read) denotes, Option.map_some]

/-- A text is read as the terms that it renders, and as none if it renders none. If its
operands stand for integers, it has the value that its terms compute, or the error of the
first step that has no value. -/
theorem arithmetic_reads_and_evaluates (t : Text) :
    (∀ terms, Term.ofText? t = some terms ↔ Term.Renders terms t) ∧
      ∀ (vars : Variables) (terms : List Term) (value : Text → Int), Term.Renders terms t →
        (∀ term ∈ terms, Denotes vars term.operand (value term.operand)) →
          (∀ n, Term.total value 0 terms = .ok n →
            ∃ a : Int32, a.toInt = n ∧ evalText vars t = .ok (.integer a)) ∧
          ∀ e, Term.total value 0 terms = .error e → evalText vars t = .error e := by
  refine ⟨fun terms => Term.ofText?_eq_some_iff, ?_⟩
  intro vars terms value renders denotes
  obtain ⟨x, result, exact⟩ := evalText_of_ofText? (Term.ofText?_eq_some_iff.mpr renders) denotes
  rw [← exact, result]
  cases x with
  | ok a => exact ⟨fun n h => ⟨a, Except.ok.inj h, rfl⟩, nofun⟩
  | error e => exact ⟨nofun, fun e' h => congrArg Except.error (Except.error.inj h)⟩

/-- Minus `X`, times two, less minus seven, as it may be typed. -/
theorem arithmetic_reads_and_evaluates_signedChain :
    Term.Renders [⟨.plus, true, ['x']⟩, ⟨.times, false, ['2']⟩, ⟨.minus, true, ['0', '7']⟩]
        "-x\t*2 --07".toList ∧
      ∃ a : Int32, a.toInt = -7 ∧
        evalText (Variables.empty.insert ['X'] (.integer 7)) "-x\t*2 --07".toList =
          .ok (.integer a) := by
  have nothing : ∀ c ∈ ([] : Text), isGap c = true := by simp
  have seven := (Token.Spells.done nothing).follows (.operand ['0', '7'])
  have negated := (seven.follows (.operator .minus)).follows (.operator .minus)
  have doubled := ((negated.gap (c := ' ') rfl).follows (.operand ['2'])).follows
    (.operator .times)
  have spells := ((doubled.gap (c := '\t') rfl).follows (.operand ['x'])).follows
    (.operator .minus)
  have operand {w : Text} (filled : w ≠ []) (run : w.all Char.isAlphanum = true) :
      Token.IsOperand w := ⟨w, filled, List.all_eq_true.mp run, .inl rfl⟩
  have renders : Term.Renders
      [⟨.plus, true, ['x']⟩, ⟨.times, false, ['2']⟩, ⟨.minus, true, ['0', '7']⟩]
      "-x\t*2 --07".toList := by
    refine ⟨?_, _, _, rfl, rfl, spells⟩
    simp only [List.forall_mem_cons]
    exact ⟨operand (by simp) rfl, operand (by simp) rfl, operand (by simp) rfl, nofun⟩
  refine ⟨renders, ?_⟩
  refine ((arithmetic_reads_and_evaluates _).2 _ _
    (fun w => if w = ['x'] then 7 else Decimal.value w) renders ?_).1 (-7) rfl
  simp only [List.forall_mem_cons]
  refine ⟨.held (n := 7) rfl ?_, .digits rfl, .digits rfl, nofun⟩
  exact Std.TreeMap.getElem?_insert_self

end Expression

end LineBasic
