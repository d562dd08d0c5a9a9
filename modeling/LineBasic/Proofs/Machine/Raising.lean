import LineBasic.Machine.Perform
import LineBasic.Proofs.Failing

/-!
# Errors of values and statements

What can go wrong while values are computed, stored and handed to the display: the
errors name no line, since a statement does not know where it stands, and none of
them is a break or a fault of the interpreter.
-/

namespace LineBasic

theorem raises_checked (n : Int) : Raises (Integer.checked n) := by
  intro e h
  obtain ⟨-, rfl⟩ := Integer.checked_eq_error_iff.mp h
  exact ⟨rfl, by decide, by decide, rfl⟩

theorem raises_apply (o : Operator) (a b : Int32) : Raises (o.apply a b) := by
  cases o with
  | plus => exact raises_checked _
  | minus => exact raises_checked _
  | times => exact raises_checked _
  | divide =>
      rw [Operator.apply]
      split
      · exact .error ⟨rfl, by decide, by decide, rfl⟩
      · exact raises_checked _

theorem raises_toInteger (v : Value) : Raises v.toInteger := by
  cases v with
  | integer n => exact .ok n
  | text s =>
      rw [Value.toInteger]
      split
      · exact .ok _
      · exact .error ⟨rfl, by decide, by decide, rfl⟩

theorem raises_store (vars : Variables) (name : Text) (value : Value) :
    Raises (vars.store name value) := by
  rw [Variables.store]
  split
  · exact .ok _
  · exact .error ⟨rfl, by decide, by decide, rfl⟩

theorem raises_advance (l : Loop) (current : Int32) : Raises (l.advance current) :=
  (raises_apply .plus current l.step).bind fun _ => .ok _

namespace Expression

variable {vars : Variables}

theorem raises_of_operand? {t : Text} {x : Except Error Int32} (h : operand? vars t = some x) :
    Raises x := by
  rw [operand?] at h
  split at h
  · split at h
    · obtain rfl := Option.some.inj h
      exact raises_checked _
    · cases h
  · split at h
    · split at h
      · obtain rfl := Option.some.inj h
        exact .ok _
      · cases h
    · cases h

theorem raises_of_operands? {t : Text} {terms : List (Operator × Bool × Except Error Int32)}
    (h : operands? vars t = some terms) : ∀ term ∈ terms, Raises term.2.2 := by
  replace h := Option.bind_eq_some_iff.mp h
  obtain ⟨list, -, h⟩ := h
  induction list generalizing terms with
  | nil =>
      obtain rfl := Option.some.inj h
      simp
  | cons term list ih =>
      rw [List.mapM_cons] at h
      obtain ⟨first, hfirst, h⟩ := Option.bind_eq_some_iff.mp h
      obtain ⟨rest, hrest, h⟩ := Option.bind_eq_some_iff.mp h
      obtain ⟨x, hx, hfirst⟩ := Option.bind_eq_some_iff.mp hfirst
      obtain rfl := Option.some.inj h
      obtain rfl := Option.some.inj hfirst
      intro other hother
      rcases List.mem_cons.mp hother with rfl | hother
      · exact raises_of_operand? hx
      · exact ih hrest other hother

theorem raises_applyTerm (sum : Int32) {term : Operator × Bool × Except Error Int32}
    (h : Raises term.2.2) : Raises (applyTerm sum term) := by
  refine h.bind fun value => ?_
  dsimp only
  split
  · exact (raises_checked _).bind fun _ => raises_apply _ _ _
  · exact raises_apply _ _ _

theorem raises_of_arithmetic? {t : Text} {x : Except Error Int32}
    (h : arithmetic? vars t = some x) : Raises x := by
  obtain ⟨terms, hterms, rfl⟩ := Option.map_eq_some_iff.mp h
  refine .foldlM (fun term hterm sum => ?_) 0
  exact raises_applyTerm sum (raises_of_operands? hterms term hterm)

theorem raises_evalPlain (vars : Variables) (t : Text) : Raises (evalPlain vars t) := by
  rw [evalPlain]
  split
  · exact .ok _
  · split
    · next x hx => exact (raises_of_arithmetic? hx).map _
    · split
      · split
        · exact .ok _
        · exact .error ⟨rfl, by decide, by decide, rfl⟩
      · split <;> exact .ok _

theorem raises_evalText (vars : Variables) (t : Text) : Raises (evalText vars t) := by
  fun_induction evalText vars t with
  | case1 t inner hinner ih => exact ih.map _
  | case2 t hinner join ih =>
      refine .bind (.mapM fun ⟨piece, hpiece⟩ _ => ?_) fun _ => .ok _
      dsimp only
      split
      · exact .ok _
      · exact (ih piece hpiece).map _
  | case3 t hinner plain => exact raises_evalPlain vars t.trim

theorem raises_evalInteger (vars : Variables) (e : Expression) : Raises (e.evalInteger vars) :=
  (raises_evalText vars e.source).bind fun v => raises_toInteger v

end Expression

namespace Machine

variable {m : Machine}

theorem raises_holds (condition : Condition) : Raises (m.holds condition) := by
  cases condition with
  | compare left relation right =>
      exact (Expression.raises_evalText _ _).bind fun _ =>
        (Expression.raises_evalText _ _).bind fun _ => .ok _
  | value e => exact (Expression.raises_evalText _ _).bind fun _ => .ok _

theorem raises_color (e : Expression) : Raises (m.color e) := by
  refine (Expression.raises_evalInteger _ _).bind fun n => ?_
  rw [colorIndex]
  split
  · exact .ok _
  · exact .error ⟨rfl, by decide, by decide, rfl⟩

theorem raises_position (e : Expression) : Raises (m.position e) :=
  (Expression.raises_evalInteger _ _).bind fun _ => .ok _

theorem raises_printParts (parts : List PrintPart) : Raises (m.printParts parts) := by
  refine .bind (.mapM fun part _ => ?_) fun _ => .ok _
  cases part with
  | value e => exact (Expression.raises_evalText _ _).bind fun _ => .ok _
  | space => exact .ok _
  | newline => exact .ok _

/-- A statement that commands the display may fail only in computing its values. -/
theorem raises_commands (s : Statement) : Raises (m.commands s) := by
  have integer (e : Expression) : Raises (m.integer e) := Expression.raises_evalInteger _ _
  cases s with
  | circle x y radius filled =>
      exact (integer x).bind fun _ => (integer y).bind fun _ => (integer radius).bind fun _ => .ok _
  | color text background =>
      refine (raises_color text).bind fun _ => ?_
      cases background with
      | none => exact .ok _
      | some background => exact (raises_color background).bind fun _ => .ok _
  | fill x y => exact (integer x).bind fun _ => (integer y).bind fun _ => .ok _
  | column e => exact (raises_position e).bind fun _ => .ok _
  | row e => exact (raises_position e).bind fun _ => .ok _
  | line x₁ y₁ x₂ y₂ =>
      exact (integer x₁).bind fun _ => (integer y₁).bind fun _ =>
        (integer x₂).bind fun _ => (integer y₂).bind fun _ => .ok _
  | list =>
      rw [commands]
      split <;> exact .ok _
  | plot x y => exact (integer x).bind fun _ => (integer y).bind fun _ => .ok _
  | print parts => exact (raises_printParts parts).bind fun _ => .ok _
  | rectangle x₁ y₁ x₂ y₂ filled =>
      exact (integer x₁).bind fun _ => (integer y₁).bind fun _ =>
        (integer x₂).bind fun _ => (integer y₂).bind fun _ => .ok _
  | _ => exact .ok _

end Machine

end LineBasic
