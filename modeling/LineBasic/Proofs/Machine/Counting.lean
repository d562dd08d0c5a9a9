import LineBasic.Proofs.Machine.Soundness

/-!
# Counted loops

A counted loop is a program whose first line opens a loop over a variable and whose
last line closes it, while the lines between them may fail in any way but leave the
run, the loops and this variable alone. With the values `a`, `b` and `s` of its bounds
and its step it makes `rounds` passes, at least one, and pass `i` is to find the value
`a + i * s` in the variable.

Main statements: `CountedLoop.exists_value`, the variable is in range in every pass, and
`CountedLoop.frame_advance`, advancing goes on exactly if a pass is left.
-/

namespace LineBasic

/-- The leaf neither touches a run, a loop or the program, nor assigns to the variable. -/
def Statement.Spares (name : Text) : Statement → Prop
  | .loop .. | .next _ | .run | .stop | .erase => False
  | .assign other _ => other ≠ name
  | _ => True

/-- The line that has a number is found by it. -/
theorem Program.find?_of_mem {p : Program} (h : p.Ascending) {l : ProgramLine}
    (hl : l ∈ p.lines) : p.find? l.number = some l := by
  obtain ⟨lines⟩ := p
  rw [Ascending, numbers] at h
  rw [find?]
  induction lines with
  | nil => cases hl
  | cons x lines ih =>
      obtain ⟨below, h⟩ := List.pairwise_cons.mp h
      rcases List.mem_cons.mp hl with rfl | hl
      · simp
      · have less := below l.number (List.mem_map_of_mem hl)
        have other : (x.number == l.number) = false := beq_false_of_ne (Nat.ne_of_lt less)
        rw [List.find?_cons, other]
        exact ih h hl

/-- Multiples of a step reach a distance as often as the step divides it. -/
private theorem reaches_iff {s : Int} (hs : s ≠ 0) (d j : Int) :
    (if 0 ≤ s then j * s ≤ d else d ≤ j * s) ↔ j ≤ d.fdiv s := by
  split
  · next h =>
    have positive : 0 < s := by omega
    rw [Int.fdiv_eq_ediv_of_nonneg d h]
    exact (Int.le_ediv_iff_mul_le positive).symm
  · next h =>
    have positive : 0 < -s := by omega
    rw [← Int.neg_fdiv_neg, Int.fdiv_eq_ediv_of_nonneg _ (Int.le_of_lt positive),
      Int.le_ediv_iff_mul_le positive, Int.mul_neg]
    exact Int.neg_le_neg_iff.symm

theorem Integer.exists_toInt_eq {n : Int} (low : -2147483648 ≤ n) (high : n < 2147483648) :
    ∃ a : Int32, a.toInt = n := by
  cases h : ofInt? n with
  | some a => exact ⟨a, ofInt?_eq_some_iff.mp h⟩
  | none =>
      have := ofInt?_eq_none_iff.mp h
      omega

namespace Loop

variable {l : Loop} {current next : Int32}

theorem advance_of_toInt_eq (h : next.toInt = current.toInt + l.step.toInt) :
    l.advance current =
      .ok (next, if 0 ≤ l.step then next ≤ l.limit else l.limit ≤ next) := by
  have applied : Operator.plus.apply current l.step = .ok next :=
    Integer.checked_eq_ok_iff.mpr h
  rw [advance, applied]
  rfl

theorem advance_of_forall_ne (h : ∀ n : Int32, n.toInt ≠ current.toInt + l.step.toInt) :
    l.advance current = .error { kind := .overflow } := by
  have applied : Operator.plus.apply current l.step = .error { kind := .overflow } := by
    refine Integer.checked_eq_error_iff.mpr ⟨?_, rfl⟩
    by_contra inside
    obtain ⟨n, hn⟩ := Integer.exists_toInt_eq (n := current.toInt + l.step.toInt)
      (by omega) (by omega)
    exact h n hn
  rw [advance, applied]
  rfl

end Loop

/-- The program of the machine is one counted loop. -/
structure CountedLoop (m : Machine) where
  name : Text
  first : ProgramLine
  body : List ProgramLine
  last : ProgramLine
  lines : m.program.lines = first :: (body ++ [last])
  start : Expression
  limit : Expression
  stride : Option Expression
  opens : first.toLine.statement = .ok (.loop name start limit stride)
  /-- The variable that the last line names, if it names one. -/
  target : Option Text
  closes : last.toLine.statement = .ok (.next target)
  own : target = none ∨ target = some name
  spared : ∀ line ∈ body, ∀ s, line.toLine.statement = .ok s → ∀ leaf ∈ s.leaves, leaf.Spares name
  a : Int32
  b : Int32
  s : Int32
  first_value : m.integer start = .ok a
  last_value : m.integer limit = .ok b
  step_value : m.stepValue stride = .ok s
  step_ne_zero : s ≠ 0
  room : m.vars.HasRoom name

namespace CountedLoop

variable {m₀ : Machine} (loop : CountedLoop m₀)

/-- How often the body is passed. -/
def rounds : Nat := (max 1 ((loop.b.toInt - loop.a.toInt).fdiv loop.s.toInt + 1)).toNat

/-- The exact value of the variable in pass `i`. -/
def valueIn (i : Nat) : Int := loop.a.toInt + i * loop.s.toInt

theorem rounds_pos : 0 < loop.rounds := by
  rw [rounds]
  omega

theorem valueIn_succ (i : Nat) : loop.valueIn (i + 1) = loop.valueIn i + loop.s.toInt := by
  simp only [valueIn, Nat.cast_add, Nat.cast_one]
  ring

/-- A pass is still to be made as long as its value has not gone past the limit. -/
theorem lt_rounds_iff (i : Nat) :
    i + 1 < loop.rounds ↔
      if 0 ≤ loop.s.toInt then loop.valueIn (i + 1) ≤ loop.b.toInt
      else loop.b.toInt ≤ loop.valueIn (i + 1) := by
  have nonzero : loop.s.toInt ≠ 0 := by
    intro h
    exact loop.step_ne_zero (Int32.toInt_inj.mp h)
  have reaches := reaches_iff nonzero (loop.b.toInt - loop.a.toInt) ((i + 1 : Nat) : Int)
  have counted : i + 1 < loop.rounds ↔
      ((i + 1 : Nat) : Int) ≤ (loop.b.toInt - loop.a.toInt).fdiv loop.s.toInt := by
    rw [rounds]
    omega
  rw [counted, ← reaches, valueIn]
  split <;> omega

/-- After pass `i` the loop goes around again exactly if another pass is to be made. -/
theorem again_iff (i : Nat) {n : Int32} (hn : n.toInt = loop.valueIn (i + 1)) :
    (if 0 ≤ loop.s then decide (n ≤ loop.b) else decide (loop.b ≤ n)) = true ↔
      i + 1 < loop.rounds := by
  have sign : 0 ≤ loop.s ↔ 0 ≤ loop.s.toInt := Int32.le_iff_toInt_le
  rw [lt_rounds_iff, ← hn]
  by_cases h : 0 ≤ loop.s
  · rw [if_pos h, if_pos (sign.mp h), decide_eq_true_iff, Int32.le_iff_toInt_le]
  · rw [if_neg h, if_neg (mt sign.mpr h), decide_eq_true_iff, Int32.le_iff_toInt_le]

/-- The variable has a value in range in each pass: the first one begins with `a`, and
every other one finds a value between the bounds. -/
theorem exists_value {i : Nat} (h : i < loop.rounds) :
    ∃ w : Int32, w.toInt = loop.valueIn i := by
  cases i with
  | zero => exact ⟨loop.a, by simp [valueIn]⟩
  | succ i =>
      have past := (loop.lt_rounds_iff i).mp h
      have low := loop.a.le_toInt
      have high := loop.a.toInt_lt
      have low' := loop.b.le_toInt
      have high' := loop.b.toInt_lt
      have value : loop.valueIn (i + 1) = loop.a.toInt + ((i + 1 : Nat) : Int) * loop.s.toInt := rfl
      have count : 0 ≤ ((i + 1 : Nat) : Int) := Int.natCast_nonneg _
      split at past
      · next ascending =>
        have gone := Int.mul_nonneg count ascending
        exact Integer.exists_toInt_eq (by omega) (by omega)
      · next descending =>
        have gone := Int.mul_nonpos_of_nonneg_of_nonpos count (by omega : loop.s.toInt ≤ 0)
        exact Integer.exists_toInt_eq (by omega) (by omega)

/-- The loop as it is kept while it is open. -/
def frame : Loop := { name := loop.name, limit := loop.b, step := loop.s, resume := 1 }

/-- Advancing in pass `i` gives the value of the next one and tells if it is made. -/
theorem frame_advance {i : Nat} {w n : Int32} (hw : w.toInt = loop.valueIn i)
    (hn : n.toInt = loop.valueIn (i + 1)) :
    loop.frame.advance w = .ok (n, decide (i + 1 < loop.rounds)) := by
  rw [Loop.advance_of_toInt_eq (by rw [hn, loop.valueIn_succ, hw]; rfl)]
  have again : (if 0 ≤ loop.s then decide (n ≤ loop.b) else decide (loop.b ≤ n)) =
      decide (i + 1 < loop.rounds) := by
    rw [Bool.eq_iff_iff, loop.again_iff i hn, decide_eq_true_iff]
  exact congrArg (fun again => Except.ok (n, again)) again

end CountedLoop

namespace Machine

variable {m : Machine}

/-- A run of the program that is stored visits its lines one by one. -/
theorem upcoming?_eq_getElem? {p : Program} (ascending : p.Ascending) (program : m.program = p)
    {place : Nat} (run : m.run = some { lines := p.numbers.toArray, next := place }) :
    m.upcoming? = p.lines[place]? := by
  simp only [upcoming?, run, program, Option.bind_some, List.getElem?_toArray, Program.numbers,
    List.getElem?_map]
  cases line : p.lines[place]? with
  | none => rfl
  | some line => exact Program.find?_of_mem ascending (List.mem_of_getElem? line)

/-- A statement all of whose leaves spare the variable keeps run, loops and program, and
the variable holds what it held. -/
theorem Performs.spares {s : Statement} {m' : Machine} {o : Outcome} (p : Performs m s m' o)
    {name : Text} (spared : ∀ leaf ∈ s.leaves, leaf.Spares name) :
    m'.program = m.program ∧ m'.run = m.run ∧ m'.loops = m.loops ∧
      m'.vars.fetch name = m.vars.fetch name ∧
      (m.vars.contains name = true → m'.vars.contains name = true) := by
  have spares {leaf : Statement} (choice : m.chosen s = .ok (some leaf)) : leaf.Spares name :=
    spared leaf (mem_leaves_of_chosen choice)
  cases p with
  | undecided | skipped | commanded | unassigned | unopened | unmatched =>
      exact ⟨rfl, rfl, rfl, rfl, id⟩
  | assigned choice evaluated room =>
      refine ⟨rfl, rfl, rfl, ?_, ?_⟩
      · exact (Variables.fetch_insert _ _ _ _).trans (if_neg (spares choice))
      · intro stored
        simp [stored]
  | stopped choice | erased choice | started choice => exact (spares choice).elim
  | refused choice | opened choice => exact (spares choice).elim
  | stuck choice | continued choice | finished choice => exact (spares choice).elim

end Machine

end LineBasic
