/-!
# Integer square roots

The root of a number is its square root with the fraction cut off. It is found
from an estimate, which may be off in either direction: it is lowered while its
square is too large, then raised while the next square still fits. Main
statement: `correct_eq_iff`, by which the answer does not depend on the estimate.
-/

namespace LineBasic.Root

/-- The largest number up to `x` whose square is at most `n`. -/
def lower (n : Nat) : Nat → Nat
  | 0 => 0
  | x + 1 => if (x + 1) * (x + 1) ≤ n then x + 1 else lower n x

/-- The first number from `x` on whose successor has a square above `n`. -/
def raise (n x : Nat) : Nat :=
  if (x + 1) * (x + 1) ≤ n then raise n (x + 1) else x
termination_by n - x
decreasing_by
  have := Nat.le_mul_self (x + 1)
  omega

/-- The root of `n`, starting at an estimate. -/
def correct (n estimate : Nat) : Nat := raise n (lower n estimate)

theorem lower_mul_self_le (n x : Nat) : lower n x * lower n x ≤ n := by
  induction x with
  | zero => simp [lower]
  | succ x ih =>
    rw [lower]
    split
    · assumption
    · exact ih

theorem raise_bounds (n x : Nat) (h : x * x ≤ n) :
    raise n x * raise n x ≤ n ∧ n < (raise n x + 1) * (raise n x + 1) := by
  fun_induction raise n x with
  | case1 x hx ih => exact ih hx
  | case2 x hx => exact ⟨h, Nat.lt_of_not_le hx⟩

/-- The root is the one number whose square fits while the next one does not. -/
theorem correct_eq_iff {n estimate r : Nat} :
    correct n estimate = r ↔ r * r ≤ n ∧ n < (r + 1) * (r + 1) := by
  have hb := raise_bounds n _ (lower_mul_self_le n estimate)
  rw [← correct] at hb
  constructor
  · rintro rfl
    exact hb
  · rintro ⟨hr, hr'⟩
    have h₁ : correct n estimate < r + 1 :=
      Nat.mul_self_lt_mul_self_iff.mp (Nat.lt_of_le_of_lt hb.1 hr')
    have h₂ : r < correct n estimate + 1 :=
      Nat.mul_self_lt_mul_self_iff.mp (Nat.lt_of_le_of_lt hr hb.2)
    omega

/-- The root of a number. Twice the root of its quarter is a close estimate. -/
def floorSqrt (n : Nat) : Nat :=
  if h : n = 0 then 0 else correct n (2 * floorSqrt (n / 4))
termination_by n
decreasing_by omega

theorem floorSqrt_eq_iff {n r : Nat} :
    floorSqrt n = r ↔ r * r ≤ n ∧ n < (r + 1) * (r + 1) := by
  rw [floorSqrt]
  split
  · next h =>
    subst h
    cases r with
    | zero => simp
    | succ r => simp
  · exact correct_eq_iff

theorem le_floorSqrt_iff {k n : Nat} : k ≤ floorSqrt n ↔ k * k ≤ n := by
  obtain ⟨lower, upper⟩ := floorSqrt_eq_iff.mp (rfl : floorSqrt n = floorSqrt n)
  constructor
  · intro h
    exact Nat.le_trans (Nat.mul_self_le_mul_self h) lower
  · intro h
    have below := Nat.lt_of_le_of_lt h upper
    exact Nat.le_of_lt_succ (Nat.mul_self_lt_mul_self_iff.mp below)

end LineBasic.Root
