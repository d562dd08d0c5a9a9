import LineBasic.Proofs.Text.Digits
import LineBasic.Proofs.Text.Trim
import LineBasic.Value.Basic
import Mathlib.Logic.ExistsUnique

/-!
# Comparing values

A comparison of two values has one outcome, and exchanging the values reverses it. Each
relation is a set of outcomes, so it holds of two values exactly if the relation with its
sides exchanged holds of them the other way around.

A text takes part in a comparison of numbers if it spells one, that is a sign or none, then
digits, with blanks around them, the number being in range (`Value.numeral?_eq_some_iff`).
Against such a text an integer stands as it stands against the number.

Main statement: `Value.comparison_consistent`.
-/

namespace LineBasic

namespace Relation

/-- Every outcome of a comparison belongs to one of three relations. -/
theorem existsUnique_holds (o : Ordering) :
    ∃! r : Relation, r ∈ [less, equal, greater] ∧ r.holds o = true := by
  cases o with
  | lt => exact ⟨less, by decide, by simp [holds]⟩
  | eq => exact ⟨equal, by decide, by simp [holds]⟩
  | gt => exact ⟨greater, by decide, by simp [holds]⟩

/-- The other three relations are what these leave. -/
theorem holds_eq_not (o : Ordering) :
    lessEqual.holds o = !greater.holds o ∧ greaterEqual.holds o = !less.holds o ∧
      notEqual.holds o = !equal.holds o := by
  cases o <;> decide

end Relation

namespace Value

/-- A text that spells an integer in range, with blanks around it. -/
def IsNumeral (t : Text) (n : Int32) : Prop :=
  ∃ before spelled after, t = before ++ (spelled ++ after) ∧ (∀ c ∈ before, isBlank c = true) ∧
    (∀ c ∈ after, isBlank c = true) ∧ Decimal.Spells spelled n.toInt

theorem numeral?_eq_some_iff {t : Text} {n : Int32} : numeral? t = some n ↔ IsNumeral t n := by
  have read : numeral? t = some n ↔ Decimal.Spells t.trim n.toInt := by
    simp only [numeral?, Integer.read?, Option.bind_eq_some_iff, Decimal.readInt?_eq_some_iff,
      Integer.ofInt?_eq_some_iff]
    simp
  rw [read]
  constructor
  · intro spelled
    obtain ⟨before, after, whole, first, last⟩ := Text.exists_append_trimWhile isBlank t
    exact ⟨before, t.trim, after, whole, first, last, spelled⟩
  · rintro ⟨before, spelled, after, rfl, first, last, h⟩
    rw [Text.trim, Text.trimWhile_append_of_forall first last,
      Text.trimWhile_eq_self h.isBlank_eq_false]
    exact h

/-- Exchanging two values reverses the outcome of their comparison. -/
theorem compare_swap (u v : Value) : compare v u = (compare u v).swap := by
  cases u with
  | integer a =>
      cases v with
      | integer b => exact Std.OrientedOrd.eq_swap
      | text t =>
          rw [compare, compare]
          cases numeral? t with
          | none => exact Std.OrientedOrd.eq_swap
          | some b => exact Std.OrientedOrd.eq_swap
  | text s =>
      cases v with
      | text t => exact Std.OrientedOrd.eq_swap
      | integer b =>
          rw [compare, compare]
          cases numeral? s with
          | none => exact Std.OrientedOrd.eq_swap
          | some a => exact Std.OrientedOrd.eq_swap

theorem compare_self (v : Value) : compare v v = .eq := by
  cases v with
  | text s => exact Std.ReflOrd.compare_self
  | integer a => exact Std.ReflOrd.compare_self

theorem relates_swap (r : Relation) (u v : Value) : relates r u v = relates r.swap v u := by
  rw [relates, relates, compare_swap u v, Relation.holds_swap]

/-- In a comparison with an integer a numeral is as good as its number. -/
theorem compare_of_isNumeral {t : Text} {b : Int32} (h : IsNumeral t b) (a : Int32) :
    compare (.integer a) (.text t) = compare (.integer a) (.integer b) := by
  simp only [compare, numeral?_eq_some_iff.mpr h]

/-- A relation holds in both directions or in neither, and of `<`, `=` and `>` exactly one
holds, which decides the other relations. -/
theorem comparison_consistent (u v : Value) :
    (∀ r, relates r u v = relates r.swap v u) ∧
    (∃! r, r ∈ [Relation.less, .equal, .greater] ∧ relates r u v = true) ∧
    relates .lessEqual u v = !relates .greater u v ∧
    relates .greaterEqual u v = !relates .less u v ∧
    relates .notEqual u v = !relates .equal u v ∧
    relates .equal v v = true ∧
    ∀ (a b : Int32) (t : Text), IsNumeral t b → ∀ r,
      relates r (.integer a) (.text t) = relates r (.integer a) (.integer b) ∧
      relates r (.text t) (.integer a) = relates r (.integer b) (.integer a) := by
  obtain ⟨notGreater, notLess, notEqual⟩ := Relation.holds_eq_not (compare u v)
  refine ⟨fun r => relates_swap r u v, Relation.existsUnique_holds _, notGreater, notLess,
    notEqual, ?_, ?_⟩
  · rw [relates, compare_self]
    rfl
  · intro a b t numeral r
    have left (r : Relation) :
        relates r (.integer a) (.text t) = relates r (.integer a) (.integer b) :=
      congrArg r.holds (compare_of_isNumeral numeral a)
    refine ⟨left r, ?_⟩
    rw [relates_swap r (.text t), left, ← relates_swap]

/-- The text begins with a blank, which comes before any digit, but spells a number that is
greater than the other one. -/
theorem comparison_consistent_padded :
    IsNumeral " +009\t".toList 9 ∧
      relates .less (.integer 3) (.text " +009\t".toList) = true ∧
      relates .less (.text " +009\t".toList) (.integer 3) = false := by
  have numeral : IsNumeral " +009\t".toList 9 :=
    ⟨[' '], "+009".toList, ['\t'], rfl, List.forall_mem_singleton.mpr rfl,
      List.forall_mem_singleton.mpr rfl, .positive (by decide)⟩
  obtain ⟨-, -, -, -, -, -, same⟩ :=
    comparison_consistent (.integer 3) (.text " +009\t".toList)
  obtain ⟨left, right⟩ := same 3 9 _ numeral .less
  exact ⟨numeral, left.trans (by decide), right.trans (by decide)⟩

end Value

end LineBasic
