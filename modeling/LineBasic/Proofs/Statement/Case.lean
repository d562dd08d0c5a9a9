import LineBasic.Proofs.Statement.Delimiters
import LineBasic.Proofs.Text.Case

/-!
# Letter case of statements

Statements are read from capitals as from small letters. Names are kept in capitals anyway, but
expressions stay source text, so those read from a text in capitals are in capitals, too. All
else about a statement is the same, and so is the error of a text that is none.

Every reader of a clause is taken by itself: on a text in capitals its result is `Clause.upper`
of its result on the text. The branches of a clause are text that is read in the same way.

Main statement: `Statement.parsing_ignores_case`.
-/

namespace LineBasic

namespace Expression

/-- The expression in capitals, those in literals included. -/
def upper (e : Expression) : Expression := ⟨e.source.upper⟩

theorem ofText_upper (t : Text) : ofText t.upper = (ofText t).upper :=
  congrArg Expression.mk t.trim_upper

end Expression

/-- The condition with another expression in place of each. -/
def Condition.mapExpressions (f : Expression → Expression) : Condition → Condition
  | compare left relation right => compare (f left) relation (f right)
  | value e => value (f e)

/-- The part with another expression in place of its own, if it has one. -/
def PrintPart.mapExpressions (f : Expression → Expression) : PrintPart → PrintPart
  | value e => value (f e)
  | space => space
  | newline => newline

/-- The statement with another expression in place of each, in its branches as well. -/
def Statement.mapExpressions (f : Expression → Expression) : Statement → Statement
  | circle x y radius filled => circle (f x) (f y) (f radius) filled
  | clear => clear
  | color text background => color (f text) (background.map f)
  | stop => stop
  | fill x y => fill (f x) (f y)
  | loop name start limit step => loop name (f start) (f limit) (step.map f)
  | home => home
  | column position => column (f position)
  | branch condition yes => branch (condition.mapExpressions f) (yes.mapExpressions f)
  | branchElse condition yes no =>
    branchElse (condition.mapExpressions f) (yes.mapExpressions f) (no.mapExpressions f)
  | assign name value => assign name (f value)
  | line x₁ y₁ x₂ y₂ => line (f x₁) (f y₁) (f x₂) (f y₂)
  | list => list
  | erase => erase
  | next name => next name
  | plot x y => plot (f x) (f y)
  | print parts => print (parts.map (PrintPart.mapExpressions f))
  | rectangle x₁ y₁ x₂ y₂ filled => rectangle (f x₁) (f y₁) (f x₂) (f y₂) filled
  | remark => remark
  | run => run
  | row position => row (f position)

namespace Clause

/-- The clause with its expressions and its branches in capitals. -/
def upper : Clause → Clause
  | whole s => whole (s.mapExpressions .upper)
  | branch condition yes => branch (condition.mapExpressions .upper) yes.upper
  | branchElse condition yes no =>
    branchElse (condition.mapExpressions .upper) yes.upper no.upper

theorem expression_upper (part : Expected) (t : Text) :
    expression part t.upper = (expression part t).map .upper := by
  rw [expression, expression, t.trim_upper, Text.isEmpty_upper, Expression.ofText_upper]
  split <;> rfl

theorem arguments?_upper (t : Text) :
    arguments? t.upper = (arguments? t).map (List.map .upper) := by
  have parts : (t.upper.split ',').map Expression.ofText =
      ((t.split ',').map Expression.ofText).map .upper := by
    rw [Text.split_upper rfl, List.map_map, List.map_map]
    exact List.map_congr_left fun piece _ => Expression.ofText_upper piece
  rw [arguments?, arguments?, parts]
  simp only [List.any_map, Function.comp_def, Expression.upper, Text.isEmpty_upper]
  split <;> rfl

theorem isFillMark_upper (e : Expression) : isFillMark e.upper = isFillMark e := by
  rw [isFillMark, Expression.upper, Text.upper_upper, isFillMark]

theorem alone_upper {s : Statement} (h : s.mapExpressions .upper = s) (t : Text) :
    alone s t.upper = (alone s t).map upper := by
  rw [alone, alone, Text.isEmpty_upper]
  split
  · exact congrArg (fun s => Except.ok (whole s)) h.symm
  · rfl

theorem assignment?_upper (t : Text) :
    assignment? t.upper = (assignment? t).map (Except.map upper) := by
  rw [assignment?, assignment?, Text.assignment?_upper, Option.map_map, Option.map_map]
  congr 1
  funext pair
  obtain ⟨name, value⟩ := pair
  simp only [Function.comp, Prod.map, expression_upper, Text.canonical_upper]
  cases expression .expression value <;> rfl

theorem assignment?_getD_upper (t : Text) {other other' : Except Malformed Clause}
    (h : other' = other.map upper) :
    (assignment? t.upper).getD other' = ((assignment? t).getD other).map upper := by
  rw [assignment?_upper, h]
  cases assignment? t <;> rfl

theorem point_upper {make : Expression → Expression → Statement}
    (h : ∀ x y, (make x y).mapExpressions .upper = make x.upper y.upper) (t : Text) :
    point make t.upper = (point make t).map upper := by
  rw [point, point, arguments?_upper]
  rcases arguments? t with _ | _ | ⟨x, _ | ⟨y, _ | ⟨more, rest⟩⟩⟩
  case some.cons.cons.nil => exact congrArg (fun s => Except.ok (whole s)) (h x y).symm
  all_goals rfl

theorem color_upper (t : Text) : color t.upper = (color t).map upper := by
  rw [color, color, arguments?_upper]
  rcases arguments? t with _ | _ | ⟨text, _ | ⟨background, _ | ⟨more, rest⟩⟩⟩ <;> rfl

theorem segment_upper (t : Text) : segment t.upper = (segment t).map upper := by
  rw [segment, segment, arguments?_upper]
  rcases arguments? t with
    _ | _ | ⟨x₁, _ | ⟨y₁, _ | ⟨x₂, _ | ⟨y₂, _ | ⟨more, rest⟩⟩⟩⟩⟩ <;> rfl

theorem rectangle_upper (t : Text) : rectangle t.upper = (rectangle t).map upper := by
  rw [rectangle, rectangle, arguments?_upper]
  rcases arguments? t with
    _ | _ | ⟨x₁, _ | ⟨y₁, _ | ⟨x₂, _ | ⟨y₂, _ | ⟨mark, _ | ⟨more, rest⟩⟩⟩⟩⟩⟩
  case some.cons.cons.cons.cons.cons.nil =>
    simp only [Option.map_some, List.map_cons, List.map_nil, isFillMark_upper]
    split <;> rfl
  all_goals rfl

theorem circle_upper (t : Text) : circle t.upper = (circle t).map upper := by
  rw [circle, circle, arguments?_upper]
  rcases arguments? t with
    _ | _ | ⟨x, _ | ⟨y, _ | ⟨radius, _ | ⟨mark, _ | ⟨more, rest⟩⟩⟩⟩⟩
  case some.cons.cons.cons.cons.nil =>
    simp only [Option.map_some, List.map_cons, List.map_nil, isFillMark_upper]
    split <;> rfl
  all_goals rfl

theorem printed_upper (piece : Text) :
    printed piece.upper = (printed piece).map (PrintPart.mapExpressions .upper) := by
  rw [printed, printed, piece.trim_upper, Text.isEmpty_upper, Expression.ofText_upper]
  split <;> rfl

/-- Separators are no letters. -/
theorem printParts_upper (last : Option Char) (piece : Text) (parts : List (Char × Text)) :
    printParts (last.map Char.toUpper) piece.upper (parts.map (Prod.map Char.toUpper .upper)) =
      (printParts last piece parts).map (PrintPart.mapExpressions .upper) := by
  induction parts generalizing last piece with
  | nil =>
      have semicolon : last.map Char.toUpper = some ';' ↔ last = some ';' := by
        cases last with
        | none => simp
        | some c => simpa using toUpper_eq_iff rfl
      rw [List.map_nil, printParts, printParts, piece.trim_upper, Text.isEmpty_upper,
        Expression.ofText_upper]
      simp only [semicolon]
      split
      · split <;> rfl
      · rfl
  | cons part parts ih =>
      obtain ⟨separator, following⟩ := part
      have comma : separator.toUpper = ',' ↔ separator = ',' := toUpper_eq_iff rfl
      have rest := ih (some separator) following
      rw [Option.map_some] at rest
      rw [List.map_cons, Prod.map, printParts, printParts, printed_upper, rest, List.map_append,
        List.map_append]
      simp only [comma]
      split <;> rfl

theorem print_upper (t : Text) : print t.upper = (print t).upper := by
  have separators : IgnoresCase fun c => c == ';' || c == ',' := by
    intro c
    have semicolon : (c.toUpper == ';') = (c == ';') := toUpper_beq rfl
    have comma : (c.toUpper == ',') = (c == ',') := toUpper_beq rfl
    simp only [semicolon, comma]
  rw [print, print, Text.segments_upper separators]
  exact congrArg (fun parts => whole (.print parts)) (printParts_upper none _ _)

theorem loop_upper (t : Text) : loop t.upper = (loop t).map upper := by
  rw [loop, loop, Text.assignment?_upper]
  cases t.assignment? with
  | none => rfl
  | some pair =>
      obtain ⟨name, range⟩ := pair
      dsimp only [Option.map_some, Prod.map]
      rw [Keyword.divide?_upper, Text.canonical_upper]
      cases Keyword.to_.divide? range with
      | none => rfl
      | some parts =>
          obtain ⟨start, rest⟩ := parts
          dsimp only [Option.map_some, Prod.map]
          rw [expression_upper, Keyword.divide?_upper]
          refine (map_bind_eq fun start => ?_).symm
          cases Keyword.step.divide? rest with
          | none =>
              dsimp only [Option.map_none]
              rw [expression_upper]
              exact map_bind_eq fun limit => rfl
          | some parts =>
              obtain ⟨limit, step⟩ := parts
              dsimp only [Option.map_some, Prod.map]
              rw [expression_upper, expression_upper]
              refine map_bind_eq fun limit => ?_
              exact map_bind_eq fun step => rfl

theorem next_upper (t : Text) : next t.upper = (next t).map upper := by
  rw [next, next, Text.isEmpty_upper, Text.isName_upper, Text.canonical_upper]
  split
  · rfl
  · split <;> rfl

theorem condition_upper (t : Text) :
    condition t.upper = (condition t).map (Condition.mapExpressions .upper) := by
  rw [condition, condition, Relation.divide?_upper]
  cases Relation.divide? t with
  | none =>
      dsimp only [Option.map_none]
      rw [expression_upper]
      cases expression .expression t <;> rfl
  | some parts =>
      obtain ⟨left, relation, right⟩ := parts
      dsimp only [Option.map_some, Prod.map]
      rw [expression_upper, expression_upper]
      refine (map_bind_eq fun left => ?_).symm
      exact map_bind_eq fun right => rfl

theorem conditional_upper (t : Text) : conditional t.upper = (conditional t).map upper := by
  rw [conditional, conditional, Keyword.divide?_upper]
  cases Keyword.then_.divide? t with
  | none => rfl
  | some parts =>
      obtain ⟨test, branches⟩ := parts
      dsimp only [Option.map_some, Prod.map]
      rw [condition_upper, Keyword.divide?_upper]
      refine (map_bind_eq fun test => ?_).symm
      cases Keyword.else_.divide? branches <;> rfl

theorem ofKeyword_upper (t : Text) (w : Keyword) :
    ofKeyword t.upper w = (ofKeyword t w).map upper := by
  have single {make : Expression → Statement} {part : Expected}
      (h : ∀ e, (make e).mapExpressions .upper = make e.upper) :
      ((expression part t.upper).map fun e => whole (make e)) =
        ((expression part t).map fun e => whole (make e)).map upper := by
    rw [expression_upper]
    cases expression part t with
    | error e => rfl
    | ok e => exact congrArg (fun s => Except.ok (whole s)) (h e).symm
  cases w
  case circle => exact circle_upper t
  case color => exact color_upper t
  case fill | plot => exact point_upper (fun _ _ => rfl) t
  case for_ => exact loop_upper t
  case if_ => exact conditional_upper t
  case let_ => exact assignment?_getD_upper t rfl
  case line => exact segment_upper t
  case next => exact next_upper t
  case rect => exact rectangle_upper t
  case print | question => exact congrArg Except.ok (print_upper t)
  case htab | vtab => exact single fun _ => rfl
  case cls | end_ | home | list | new | run => exact alone_upper rfl t
  case rem | else_ | step | then_ | to_ => rfl

theorem read_upper (t : Text) : read t.upper = (read t).map upper := by
  rw [read, read, Keyword.leading?_upper]
  cases Keyword.leading? t with
  | none => exact assignment?_getD_upper t rfl
  | some opened => exact ofKeyword_upper opened.2 opened.1

theorem readBranch_upper (t : Text) : readBranch t.upper = (readBranch t).map upper := by
  rw [readBranch, readBranch, t.trim_upper, Text.isEmpty_upper]
  split
  · rfl
  · exact assignment?_getD_upper _ (read_upper _)

theorem complete_upper (c : Clause) :
    c.upper.complete = c.complete.map (Statement.mapExpressions .upper) := by
  -- on the clauses of the branches, which are read in capitals in turn
  fun_induction complete c with
  | case1 s => exact complete_whole _
  | case2 condition yes e failed =>
      rw [upper, complete_branch, Statement.readBranch, readBranch_upper, failed]
      rfl
  | case3 condition yes clause read ih =>
      rw [upper, complete_branch, Statement.readBranch, readBranch_upper, read]
      change (clause.upper.complete >>= _) = _
      rw [ih]
      refine (map_bind_eq fun yes => ?_).symm
      rfl
  | case4 condition yes no e failed =>
      rw [upper, complete_branchElse, Statement.readBranch, readBranch_upper, failed]
      rfl
  | case5 condition yes no clause read ihyes ihno =>
      rw [upper, complete_branchElse, Statement.readBranch, readBranch_upper, read]
      change (clause.upper.complete >>= _) = _
      rw [ihyes]
      refine (map_bind_eq fun yes => ?_).symm
      rw [Statement.readBranch, readBranch_upper]
      split
      · next failed =>
        rw [failed]
        rfl
      · next clause' read' =>
        rw [read']
        change _ = clause'.upper.complete >>= _
        rw [ihno clause' read']
        exact map_bind_eq fun no => rfl

end Clause

namespace Statement

theorem read_upper (t : Text) :
    read t.upper = (read t).map (mapExpressions .upper) := by
  rw [read, read, Clause.read_upper]
  cases Clause.read t with
  | error m => rfl
  | ok c => exact c.complete_upper

/-- A line in capitals is the same statement, with its expressions in capitals at any depth, or
fails with the same error. -/
theorem parsing_ignores_case (line : Option Nat) (t : Text) :
    parse line t.upper = (parse line t).map (mapExpressions .upper) := by
  rw [parse, parse, read_upper]
  cases read t <;> rfl

end Statement

end LineBasic
