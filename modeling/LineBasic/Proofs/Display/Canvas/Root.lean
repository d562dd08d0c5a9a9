import LineBasic.Proofs.Display.Canvas.Basic
import LineBasic.Proofs.Display.Canvas.Binary64

/-!
# Roots in machine words

The loops that correct an estimate compute what `Root.lower` and `Root.raise` do, and
no square on the way leaves its word: the estimate is not above the 31st power of
two, and only a root whose square fits is raised.
-/

namespace LineBasic.Canvas

open Word

theorem Estimate.lower_mk (n x : Int) :
    lower ⟨n, x⟩ = do
      if n < (← int64 (x * x)) then lower ⟨n, ← int64 (x - 1)⟩ else return x := by
  rw [lower]

theorem Estimate.raise_mk (n x : Int) :
    raise ⟨n, x⟩ = do
      let next ← int64 (x + 1)
      if (← int64 (next * next)) ≤ n then raise ⟨n, next⟩ else return x := by
  rw [raise]

theorem lower_eq {n x : Nat} (h : x ≤ 3037000499) :
    Estimate.lower ⟨n, x⟩ = some (Root.lower n x : Int) := by
  induction x with
  | zero =>
    rw [Estimate.lower_mk, int64_bind (by decide) (by decide), if_neg (by omega)]
    rfl
  | succ x ih =>
    have square : (x + 1) * (x + 1) ≤ 3037000499 * 3037000499 := Nat.mul_self_le_mul_self h
    have before : ((x + 1 : Nat) : Int) - 1 = x := by omega
    rw [Estimate.lower_mk, ← Int.natCast_mul, int64_bind (by omega) (by omega), before,
      int64_bind (by omega) (by omega), Root.lower]
    by_cases fits : (x + 1) * (x + 1) ≤ n
    · rw [if_neg (by omega), if_pos fits]
      rfl
    · rw [if_pos (by omega), if_neg fits, ih (by omega)]

theorem raise_step {n x : Nat} (h : x < 2 ^ 31) :
    Estimate.raise ⟨n, x⟩ =
      if (x + 1) * (x + 1) ≤ n then Estimate.raise ⟨n, (x + 1 : Nat)⟩ else some (x : Int) := by
  have bound : (x + 1) * (x + 1) ≤ 2 ^ 31 * 2 ^ 31 := Nat.mul_self_le_mul_self h
  have square : ((x : Int) + 1) * ((x : Int) + 1) = ((x + 1) * (x + 1) : Nat) := by simp
  rw [Estimate.raise_mk, int64_bind (by omega) (by omega), int64_bind (by omega) (by omega), square]
  simp only [Int.ofNat_le]
  rfl

theorem raise_eq {n x : Nat} (small : n < 2 ^ 62) (h : x * x ≤ n) :
    Estimate.raise ⟨n, x⟩ = some (Root.raise n x : Int) := by
  have step : x < 2 ^ 31 := Nat.mul_self_lt_mul_self_iff.mp (Nat.lt_of_le_of_lt h small)
  fun_induction Root.raise n x with
  | case1 x fits ih =>
    have next : x + 1 < 2 ^ 31 :=
      Nat.mul_self_lt_mul_self_iff.mp (Nat.lt_of_le_of_lt fits small)
    rw [raise_step step, if_pos fits, ih fits next]
  | case2 x last => rw [raise_step step, if_neg last]

/-- The answer does not depend on the estimate, as long as its square fits the word. -/
theorem correctRoot_eq {n estimate : Nat} (small : n < 2 ^ 62) (h : estimate ≤ 3037000499) :
    (Estimate.lower ⟨n, estimate⟩ >>= fun x => Estimate.raise ⟨n, x⟩) =
      some (Root.floorSqrt n : Int) := by
  have correct : Root.correct n estimate = Root.floorSqrt n :=
    Root.correct_eq_iff.mpr (Root.floorSqrt_eq_iff.mp rfl)
  rw [Checked.bind_eq (lower_eq h), raise_eq small (Root.lower_mul_self_le n estimate),
    ← Root.correct, correct]

/-- Whether estimates are close enough: those of the roots of 31 bits are neither negative nor
above the 31st power of two by more than one. -/
def Close (estimate : Int → Int) : Prop :=
  ∀ n, 0 ≤ n → n ≤ 2147483647 * 2147483647 → 0 ≤ estimate n ∧ estimate n ≤ 2147483649

theorem close_estimateRoot : Close estimateRoot := by
  intro n least greatest
  obtain ⟨n, rfl⟩ := Int.eq_ofNat_of_zero_le least
  have bounds := Binary64.toInt64_sqrt_bounds (n := n) (by omega) (by omega)
  simp only [estimateRoot]
  omega

variable {estimate : Int → Int}

theorem root_eq (close : Close estimate) {n : Nat} (small : n ≤ 2147483647 * 2147483647) :
    root estimate n = some (Root.floorSqrt n : Int) := by
  obtain ⟨least, greatest⟩ := close n (by omega) (by omega)
  obtain ⟨x, same⟩ := Int.eq_ofNat_of_zero_le least
  rw [root, same]
  exact correctRoot_eq (by omega) (by omega)

theorem halfWidth_eq (close : Close estimate) {radius distance : Int} (h : radius ≤ 2147483647)
    (least : 0 ≤ distance) :
    halfWidth estimate radius distance = some (Shape.halfWidth radius distance) := by
  by_cases beyond : radius < distance
  · rw [halfWidth, Shape.halfWidth, if_pos beyond, if_pos beyond]
    rfl
  · have square : radius * radius ≤ 2147483647 * 2147483647 :=
      Int.mul_self_le_mul_self (by omega) h
    have lost : distance * distance ≤ radius * radius :=
      Int.mul_self_le_mul_self least (by omega)
    have positive : 0 ≤ distance * distance := Int.mul_nonneg least least
    obtain ⟨n, same⟩ := Int.eq_ofNat_of_zero_le (a := radius * radius - distance * distance)
      (by omega)
    rw [halfWidth, Shape.halfWidth, if_neg beyond, if_neg beyond]
    simp (disch := omega) only [int64_bind]
    rw [same, root_eq close (by omega)]
    rfl

theorem halfWidth_bind {α : Type} (close : Close estimate) {radius distance : Int}
    (h : radius ≤ 2147483647) (least : 0 ≤ distance) (f : Int → Checked α) :
    (halfWidth estimate radius distance >>= f) = f (Shape.halfWidth radius distance) :=
  Checked.bind_eq (halfWidth_eq close h least) f

end LineBasic.Canvas
