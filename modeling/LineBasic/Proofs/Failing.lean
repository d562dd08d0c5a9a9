import LineBasic.Proofs.Report

/-!
# Computations that may fail

Evaluating, storing and reading either give a value or an error, and are put
together in sequence: the first failure is the failure of the whole. These lemmas
take a sequence apart, and say of all errors of a sequence what is known of the
errors of its parts.
-/

namespace LineBasic

section Sequence

variable {ε α β : Type} {x : Except ε α} {f : α → Except ε β}

theorem eq_ok_of_toOption {a : α} (h : x.toOption = some a) : x = .ok a := by
  cases x with
  | error e => cases h
  | ok b => exact congrArg Except.ok (Option.some.inj h)

theorem bind_eq_ok_iff {b : β} : x >>= f = .ok b ↔ ∃ a, x = .ok a ∧ f a = .ok b := by
  cases x with
  | error e => simp [bind, Except.bind]
  | ok a => simp [bind, Except.bind]

theorem bind_eq_error_iff {e : ε} :
    x >>= f = .error e ↔ x = .error e ∨ ∃ a, x = .ok a ∧ f a = .error e := by
  cases x with
  | error e' => simp [bind, Except.bind]
  | ok a => simp [bind, Except.bind]

theorem map_eq_error_iff {g : α → β} {e : ε} : x.map g = .error e ↔ x = .error e := by
  cases x with
  | error e' => simp [Except.map]
  | ok a => simp [Except.map]

/-- A view of all results of a sequence is a sequence of views. -/
theorem map_bind_eq {γ δ : Type} {g : α → γ} {k : β → δ} {f' : γ → Except ε δ}
    (h : ∀ a, (f a).map k = f' (g a)) : (x >>= f).map k = x.map g >>= f' := by
  cases x with
  | error e => rfl
  | ok a => exact h a

/-- A list of views is a view of the list. -/
theorem mapM_map_eq {γ : Type} (g : β → γ) (l : List α) :
    (l.mapM fun a => (f a).map g) = (l.mapM f).map (List.map g) := by
  induction l with
  | nil => rfl
  | cons a l ih =>
      rw [List.mapM_cons, List.mapM_cons, ih]
      cases f a with
      | error e => rfl
      | ok b => cases l.mapM f <;> rfl

end Sequence

/-- An error as a statement raises it: no line is named yet, not in the detail either,
and it is neither a break nor a fault of the interpreter. -/
structure Error.Raised (e : Error) : Prop where
  placeless : e.line = none
  not_interrupted : e.kind ≠ .interrupted
  not_internal : e.kind ≠ .internalError
  nameless : Text.namedLines e.remark = []

/-- Whatever error the computation has, a statement may raise it. -/
def Raises {α : Type} (x : Except Error α) : Prop := ∀ e, x = .error e → e.Raised

namespace Raises

variable {α β : Type} {x : Except Error α} {f : α → Except Error β}

theorem ok (a : α) : Raises (.ok a : Except Error α) := fun _ h => nomatch h

theorem error {e : Error} (h : e.Raised) : Raises (.error e : Except Error α) := by
  rintro e' ⟨⟩
  exact h

theorem bind (hx : Raises x) (hf : ∀ a, Raises (f a)) : Raises (x >>= f) := by
  intro e h
  rcases bind_eq_error_iff.mp h with h | ⟨a, -, h⟩
  · exact hx e h
  · exact hf a e h

theorem map (hx : Raises x) (g : α → β) : Raises (x.map g) :=
  fun e h => hx e (map_eq_error_iff.mp h)

theorem mapM {l : List α} (h : ∀ a ∈ l, Raises (f a)) : Raises (l.mapM f) := by
  induction l with
  | nil => exact ok []
  | cons a l ih =>
      rw [List.mapM_cons]
      exact (h a (by simp)).bind fun b => (ih fun c hc => h c (by simp [hc])).bind fun _ => ok _

theorem foldlM {g : β → α → Except Error β} {l : List α} (h : ∀ a ∈ l, ∀ b, Raises (g b a))
    (b : β) : Raises (l.foldlM g b) := by
  induction l generalizing b with
  | nil => exact ok b
  | cons a l ih =>
      rw [List.foldlM_cons]
      exact (h a (by simp) b).bind fun b => ih (fun c hc => h c (by simp [hc])) b

end Raises

end LineBasic
