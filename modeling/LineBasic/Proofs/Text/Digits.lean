import LineBasic.Proofs.Text.Trim
import LineBasic.Text.Blank
import LineBasic.Text.Decimal
import Mathlib.Data.List.Induction

/-!
# Digits and the numbers they denote

A number has one spelling without leading zeros, the one that is printed, and any other
spelling has zeros in front of it. `Starts` says which digits a text starts with, which are
its longest run of digits. With a sign in front of digits, `Spells` says which texts are read
as which integers (`readInt?_eq_some_iff`).
-/

namespace LineBasic

theorem isBlank_eq_false_of_isDigit {c : Char} (h : c.isDigit = true) : isBlank c = false := by
  rw [Bool.eq_false_iff]
  intro blank
  have := isAlphanum_eq_false_of_isBlank blank
  simp [Char.isAlphanum, h] at this

namespace Decimal

theorem exists_digitChar_of_isDigit {c : Char} (h : c.isDigit = true) :
    ∃ d < 10, c = d.digitChar := by
  have bounds : 48 ≤ c.toNat ∧ c.toNat ≤ 57 := by
    simpa [Char.isDigit, UInt32.le_iff_toNat_le] using h
  refine ⟨c.toNat - 48, by omega, ?_⟩
  apply Char.toNat_inj.mp
  rw [Nat.toNat_digitChar_of_lt_ten (by omega)]
  omega

theorem value_concat (t : Text) {d : Nat} (h : d < 10) :
    value (t ++ [d.digitChar]) = 10 * value t + d := by
  rw [value, Nat.ofDigitChars_append, Nat.ofDigitChars_cons_digitChar_of_lt_ten h,
    Nat.ofDigitChars_nil, value]

/-- Digits are a printed number with zeros in front of it. -/
theorem exists_zeros_append_print {t : Text} (h : isDigits t = true) :
    ∃ k, t = List.replicate k '0' ++ print (value t) := by
  induction t using List.reverseRecOn with
  | nil => cases h
  | append_singleton t c ih =>
      simp only [isDigits, List.all_append, List.all_cons, List.all_nil, Bool.and_true,
        Bool.and_eq_true] at h
      obtain ⟨d, hd, rfl⟩ := exists_digitChar_of_isDigit h.2.2
      rw [value_concat t hd]
      by_cases first : t = []
      · subst first
        have nothing : value [] = 0 := rfl
        rw [nothing, Nat.mul_zero, Nat.zero_add]
        exact ⟨0, (Nat.toDigits_of_lt_base hd).symm⟩
      · obtain ⟨k, hk⟩ := ih (by simp [isDigits, first, h.2.1])
        rcases Nat.eq_zero_or_pos (value t) with zero | positive
        · refine ⟨k + 1, ?_⟩
          rw [zero] at hk ⊢
          rw [Nat.mul_zero, Nat.zero_add, print, Nat.toDigits_of_lt_base hd, hk,
            List.replicate_succ']
          rfl
        · refine ⟨k, ?_⟩
          rw [print, ← Nat.toDigits_append_toDigits (by decide) positive hd,
            Nat.toDigits_of_lt_base hd, ← List.append_assoc]
          exact congrArg (· ++ _) hk

/-- The text starts with these digits, and no other digit follows them. -/
structure Starts (t digits rest : Text) : Prop where
  whole : t = digits ++ rest
  digits : isDigits digits = true
  ends : ∀ c ∈ rest.head?, c.isDigit = false

theorem forall_isDigit {t : Text} (h : isDigits t = true) : ∀ c ∈ t, c.isDigit = true := by
  rw [isDigits, Bool.and_eq_true, List.all_eq_true] at h
  exact h.2

theorem ne_nil_of_isDigits {t : Text} (h : isDigits t = true) : t ≠ [] := by
  rintro rfl
  cases h

namespace Starts

variable {t digits rest : Text}

theorem takeWhile_eq (h : Starts t digits rest) : t.takeWhile Char.isDigit = digits := by
  rw [h.whole, List.takeWhile_append_of_pos (forall_isDigit h.digits),
    Text.takeWhile_eq_nil h.ends, List.append_nil]

theorem dropWhile_eq (h : Starts t digits rest) : t.dropWhile Char.isDigit = rest := by
  rw [h.whole, List.dropWhile_append_of_pos (forall_isDigit h.digits),
    Text.dropWhile_eq_self h.ends]

end Starts

/-- A text starts with digits unless its first character is none. -/
theorem starts_or (t : Text) :
    (∀ c ∈ t.head?, c.isDigit = false) ∨ ∃ digits rest, Starts t digits rest := by
  by_cases none : ∀ c ∈ t.head?, c.isDigit = false
  · exact .inl none
  · refine .inr ⟨t.takeWhile Char.isDigit, t.dropWhile Char.isDigit,
      List.takeWhile_append_dropWhile.symm, ?_, Text.head?_dropWhile _ t⟩
    cases t with
    | nil => exact absurd nofun none
    | cons c t =>
        have digit : c.isDigit = true := by simpa using none
        rw [isDigits, List.takeWhile_cons_of_pos digit]
        simp [digit]

/-- The spellings of an integer: any digits that denote it, with at most one sign. -/
inductive Spells : Text → Int → Prop where
  | unsigned {digits : Text} (h : isDigits digits = true) : Spells digits (value digits)
  | positive {digits : Text} (h : isDigits digits = true) : Spells ('+' :: digits) (value digits)
  | negative {digits : Text} (h : isDigits digits = true) :
      Spells ('-' :: digits) (-(value digits : Int))

theorem read?_eq_some_iff {t : Text} {n : Nat} :
    read? t = some n ↔ isDigits t = true ∧ value t = n := by
  rw [read?]
  split <;> simp [*]

theorem readInt?_eq_some_iff {t : Text} {n : Int} : readInt? t = some n ↔ Spells t n := by
  constructor
  · intro h
    rw [readInt?.eq_def] at h
    split at h <;>
      simp only [Option.map_eq_some_iff, Option.bind_eq_bind, Option.bind_eq_some_iff,
        Option.pure_def, Option.some.injEq, read?_eq_some_iff] at h <;>
      obtain ⟨_, ⟨_, ⟨digits, rfl⟩, rfl⟩, rfl⟩ := h
    · exact .negative digits
    · exact .positive digits
    · exact .unsigned digits
  · intro h
    cases h with
    | unsigned digits => exact readInt?_of_isDigits digits
    | positive digits | negative digits => simp [readInt?, read?, digits]

/-- A spelling holds signs and digits only. -/
theorem Spells.isBlank_eq_false {t : Text} {n : Int} (h : Spells t n) :
    ∀ c ∈ t, isBlank c = false := by
  have plain {s : Text} (hs : isDigits s = true) : ∀ c ∈ s, isBlank c = false :=
    fun c hc => isBlank_eq_false_of_isDigit (forall_isDigit hs c hc)
  cases h with
  | unsigned digits => exact plain digits
  | positive digits | negative digits => exact List.forall_mem_cons.mpr ⟨by decide, plain digits⟩

end Decimal

end LineBasic
