import Mathlib

/-!
# Roots in floating point

A whole number below the 62nd power of two has a binary floating point root that is
not above the 31st. Only the conversion and the root round, and each goes to one of
the two neighbours that a mantissa of 53 bits leaves; a number of full length
survives packing. So the length of every mantissa on the way is known, and with it
the exponent.
-/

namespace LineBasic.Binary64

open Float.Model Float.Model.UnpackedFloat

theorem targetExponent_eq (t : Int) : Format.binary64.targetExponent t = max (t - 53) (-1074) :=
  rfl

theorem mantissa_shiftRight (em : ExtendedMantissa) (k : Nat) :
    (em >>> k).mantissa = em.mantissa / 2 ^ k := by
  induction k with
  | zero => exact (Nat.div_one _).symm
  | succ k ih =>
    have step : (em >>> (k + 1)).mantissa = (em >>> k).mantissa / 2 := rfl
    rw [step, ih, Nat.div_div_eq_div_mul, Nat.pow_succ]

@[simp] theorem mantissa_ofMantissaAndAccuracy (m : Nat) (a : Accuracy) :
    (ExtendedMantissa.ofMantissaAndAccuracy m a).mantissa = m := by
  cases a with
  | exact => rfl
  | inexact o => cases o <;> rfl

/-- Rounding goes to the mantissa or to its successor. -/
theorem roundedMantissa_bounds (em : ExtendedMantissa) :
    em.mantissa ≤ em.roundedMantissa ∧ em.roundedMantissa ≤ em.mantissa + 1 := by
  obtain ⟨m, roundBit, stickyBit⟩ := em
  cases roundBit <;> cases stickyBit <;>
    simp only [ExtendedMantissa.roundedMantissa, ExtendedMantissa.accuracy,
      Accuracy.roundToNearestEven] <;> omega

/-- A mantissa that is `k` bits too long is shifted by these. -/
theorem shiftToTargetExponent_eq {m k : Nat} {e : Int} {a : Accuracy} (hm : m.log2 = 52 + k)
    (he : -1074 ≤ e + k) :
    shiftToTargetExponent Format.binary64 m e a =
      (ExtendedMantissa.ofMantissaAndAccuracy m a >>> k, e + k) := by
  have target : Format.binary64.targetExponent (totalExponent m e) = e + k := by
    rw [targetExponent_eq, totalExponent]
    omega
  have amount : (e + k - e).toNat = k := by omega
  rw [shiftToTargetExponent, target, shiftToExponent, amount]

theorem log2_eq_52_iff {m : Nat} : m.log2 = 52 ↔ 2 ^ 52 ≤ m ∧ m < 2 ^ 53 := by
  by_cases h : m = 0
  · subst h
    simp
  · exact Nat.log2_eq_iff h

/-- Rounding keeps the first 53 bits of a mantissa, or the number behind them. -/
theorem roundWithAccuracy_eq {m k : Nat} {e : Int} (s : Sign) (a : Accuracy)
    (hm : m.log2 = 52 + k) (he : -1074 ≤ e + k) :
    ∃ m' e' h, roundWithAccuracy Format.binary64 s m e a = .finite s m' e' h ∧ m'.log2 = 52 ∧
      (e' = e + k ∧ m' ≤ m / 2 ^ k + 1 ∨
        e' = e + k + 1 ∧ m' = 2 ^ 52 ∧ m / 2 ^ k + 1 = 2 ^ 53) := by
  have nonzero : m ≠ 0 := by
    rintro rfl
    simp at hm
    omega
  obtain ⟨least, greatest⟩ := (Nat.log2_eq_iff nonzero).mp hm
  have low : 2 ^ 52 ≤ m / 2 ^ k := by
    rw [Nat.le_div_iff_mul_le (Nat.two_pow_pos k), ← Nat.pow_add]
    exact least
  have high : m / 2 ^ k < 2 ^ 53 := by
    rw [Nat.div_lt_iff_lt_mul (Nat.two_pow_pos k), ← Nat.pow_add]
    exact Nat.lt_of_lt_of_eq greatest (congrArg _ (by omega))
  obtain ⟨lower, upper⟩ :=
    roundedMantissa_bounds (ExtendedMantissa.ofMantissaAndAccuracy m a >>> k)
  rw [mantissa_shiftRight, mantissa_ofMantissaAndAccuracy] at lower upper
  rw [roundWithAccuracy, shiftToTargetExponent_eq hm he]
  simp only
  generalize (ExtendedMantissa.ofMantissaAndAccuracy m a >>> k).roundedMantissa = r at lower upper
  by_cases full : r < 2 ^ 53
  · have short : r.log2 = 52 + 0 := log2_eq_52_iff.mpr ⟨by omega, full⟩
    rw [shiftToTargetExponent_eq short (by omega)]
    simp only [mantissa_shiftRight, mantissa_ofMantissaAndAccuracy, Nat.pow_zero, Nat.div_one]
    rw [dif_neg (by omega)]
    exact ⟨r, _, by omega, rfl, short, .inl ⟨by omega, upper⟩⟩
  · -- rounding up has given the mantissa one bit more
    have power : r = 2 ^ 53 := by omega
    have long : r.log2 = 52 + 1 := by rw [power, Nat.log2_two_pow]
    rw [shiftToTargetExponent_eq long (by omega)]
    simp only [mantissa_shiftRight, mantissa_ofMantissaAndAccuracy, power]
    rw [dif_neg (by decide)]
    exact ⟨2 ^ 52, _, by decide, rfl, Nat.log2_two_pow, .inr ⟨by omega, rfl, by omega⟩⟩

@[simp] theorem unpackSign_packComponents {spec : Format} (s : Sign)
    (e : BitVec spec.exponentBits) (m : BitVec spec.mantissaBitsWithoutImplicit) :
    unpackSign (packComponents spec s e m) = s.toBitVec := by
  ext i hi
  have first : i = 0 := by omega
  subst first
  simp [unpackSign, packComponents, BitVec.getLsbD_append, BitVec.getElem_append]

@[simp] theorem ofBitVec_toBitVec (s : Sign) : Sign.ofBitVec s.toBitVec = s := by
  cases s <;> rfl

/-- The implicit bit of a full mantissa comes back. -/
theorem toNat_implicit_append {m : Nat} (h : m.log2 = 52) :
    (1#1 ++ BitVec.ofNat 52 m).toNat = m := by
  obtain ⟨least, greatest⟩ := log2_eq_52_iff.mp h
  rw [BitVec.toNat_append, ← Nat.shiftLeft_add_eq_or_of_lt (BitVec.isLt _), Nat.shiftLeft_eq]
  simp only [BitVec.toNat_ofNat]
  omega

theorem ofNat_ne_zero_and_ne_neg_one {b : Nat} (pos : 0 < b) (h : b < 2047) :
    BitVec.ofNat 11 b ≠ 0#11 ∧ BitVec.ofNat 11 b ≠ -1#11 := by
  have value : (BitVec.ofNat 11 b).toNat = b := by
    rw [BitVec.toNat_ofNat, Nat.mod_eq_of_lt (by omega)]
  constructor <;> intro same <;> have same := congrArg BitVec.toNat same <;>
    rw [value] at same <;> simp at same <;> omega

/-- A number of full length keeps its exponent, biased, and all but the first bit of its
mantissa. -/
theorem pack_eq {m : Nat} {e : Int} (s : Sign) (pos : 0 < m) (hm : m.log2 = 52)
    (greatest : e ≤ 970) :
    UnpackedFloat.pack Format.binary64 (.finite s m e pos) =
      packComponents Format.binary64 s (BitVec.ofNat 11 (e + 1023 + 52).toNat)
        (BitVec.ofNat 52 m) := by
  show (if 2 ^ 11 ≤ (e + 1023 + 52).toNat + 1 then _ else if m.log2 + 1 = 53 then _ else _) = _
  rw [if_neg (by omega), if_pos (by omega)]
  rfl

/-- A number that has the full length is not changed by packing. -/
theorem unpack_pack {m : Nat} {e : Int} (s : Sign) (pos : 0 < m) (hm : m.log2 = 52)
    (least : -1074 ≤ e) (greatest : e ≤ 970) :
    (Float.Model.pack (.finite s m e pos)).unpack = .finite s m e pos := by
  obtain ⟨notSmall, notInfinite⟩ :=
    ofNat_ne_zero_and_ne_neg_one (b := (e + 1023 + 52).toNat) (by omega) (by omega)
  have exponent : (BitVec.ofNat 11 (e + 1023 + 52).toNat).toNat = (e + 1023 + 52).toNat := by
    rw [BitVec.toNat_ofNat, Nat.mod_eq_of_lt (by omega)]
  show UnpackedFloat.unpack Format.binary64 (UnpackedFloat.pack Format.binary64 _) = _
  rw [pack_eq s pos hm greatest, UnpackedFloat.unpack]
  simp only [unpackExponent_packComponents, unpackMantissa_packComponents,
    unpackSign_packComponents, ofBitVec_toBitVec]
  rw [if_neg notInfinite, if_neg notSmall]
  simp only [finite.injEq, true_and]
  refine ⟨toNat_implicit_append hm, ?_⟩
  rw [exponent]
  show ((e + 1023 + 52).toNat : Int) - (1023 + 52) = e
  omega

theorem log2_shiftLeft {n k : Nat} (h : n ≠ 0) : (n <<< k).log2 = n.log2 + k := by
  obtain ⟨least, greatest⟩ := (Nat.log2_eq_iff h).mp rfl
  have positive := Nat.two_pow_pos k
  rw [Nat.shiftLeft_eq]
  refine (Nat.log2_eq_iff (Nat.mul_ne_zero h (Nat.ne_of_gt positive))).mpr ⟨?_, ?_⟩
  · rw [Nat.pow_add]
    exact Nat.mul_le_mul_right _ least
  · rw [Nat.add_right_comm, Nat.pow_add]
    exact Nat.mul_lt_mul_of_pos_right greatest positive

/-- A positive number below the 62nd power of two becomes one of full length that is not
above that power. -/
theorem ofInt_eq {n : Int} (pos : 0 < n) (small : n < 2 ^ 62) :
    ∃ m e h, UnpackedFloat.ofInt Format.binary64 n = .finite .positive m e h ∧ m.log2 = 52 ∧
      -52 ≤ e ∧ (e ≤ 9 ∨ e = 10 ∧ m = 2 ^ 52) := by
  obtain ⟨n, rfl⟩ := Int.eq_ofNat_of_zero_le (Int.le_of_lt pos)
  have nonzero : n ≠ 0 := by omega
  obtain ⟨least, greatest⟩ := (Nat.log2_eq_iff nonzero).mp rfl
  have short : n.log2 < 62 := (Nat.log2_lt nonzero).mpr (by omega)
  have positive : compare (n : Int) 0 = .gt := Int.compare_eq_gt.mpr pos
  have target : Format.binary64.targetExponent (totalExponent n 0) = n.log2 - 52 := by
    rw [targetExponent_eq, totalExponent]
    omega
  rw [UnpackedFloat.ofInt, UnpackedFloat.normalize, positive]
  simp only [UnpackedFloat.round, target, decreaseExponent, Int.toNat_natCast]
  -- the mantissa has its length already, or is shifted up to it
  have length : (n <<< (0 - ((n.log2 : Int) - 52)).toNat).log2 = 52 + (n.log2 - 52) := by
    rw [log2_shiftLeft nonzero]
    omega
  obtain ⟨m, e, h, rounded, full, range⟩ :=
    roundWithAccuracy_eq (k := n.log2 - 52) (e := 0 - ((0 - ((n.log2 : Int) - 52)).toNat : Int))
      .positive .exact length (by omega)
  exact ⟨m, e, h, rounded, full, by omega, by omega⟩

/-- The root of a number that has 105 or 106 bits has 53. -/
theorem log2_sqrt {n : Nat} (least : 2 ^ 104 ≤ n) (greatest : n < 2 ^ 106) :
    (Nat.sqrt n).log2 = 52 := by
  have low : 2 ^ 52 < Nat.sqrt n + 1 :=
    Nat.mul_self_lt_mul_self_iff.mp (Nat.lt_of_le_of_lt least (Nat.lt_succ_sqrt n))
  have high : Nat.sqrt n < 2 ^ 53 :=
    Nat.mul_self_lt_mul_self_iff.mp (Nat.lt_of_le_of_lt (Nat.sqrt_le n) greatest)
  exact log2_eq_52_iff.mpr ⟨by omega, high⟩

/-- The root of such a number has full length and is not above the 31st power of two by
more than one unit in the last place. -/
theorem sqrt_eq {m : Nat} {e : Int} (pos : 0 < m) (full : m.log2 = 52) (least : -52 ≤ e)
    (greatest : e ≤ 9 ∨ e = 10 ∧ m = 2 ^ 52) :
    ∃ m' e' h, UnpackedFloat.sqrt Format.binary64 (.finite .positive m e pos) =
      .finite .positive m' e' h ∧ m'.log2 = 52 ∧ -52 ≤ e' ∧
      (e' ≤ -22 ∨ e' = -21 ∧ m' ≤ 2 ^ 52 + 1) := by
  have target : min (e.ediv 2)
      (Format.binary64.targetExponent ((totalExponent m e + 1).ediv 2)) = e / 2 - 26 := by
    show min (e / 2) (Format.binary64.targetExponent ((totalExponent m e + 1) / 2)) = _
    rw [targetExponent_eq, totalExponent, full]
    omega
  rw [UnpackedFloat.sqrt, sqrtCore]
  simp only [target]
  have amount : (e - 2 * (e / 2 - 26)).toNat = 52 ∨ (e - 2 * (e / 2 - 26)).toNat = 53 := by omega
  obtain ⟨low, high⟩ := log2_eq_52_iff.mp full
  generalize hn : m <<< (e - 2 * (e / 2 - 26)).toNat = n
  have range : 2 ^ 104 ≤ n ∧ n < 2 ^ 106 := by
    rw [← hn, Nat.shiftLeft_eq]
    rcases amount with h | h <;> rw [h] <;> omega
  generalize (if n - Nat.sqrt n * Nat.sqrt n = 0 then Accuracy.exact else
    .inexact (if n - Nat.sqrt n * Nat.sqrt n ≤ Nat.sqrt n then .lt else .gt)) = a
  obtain ⟨m', e', h, rounded, full', near⟩ :=
    roundWithAccuracy_eq (k := 0) (e := e / 2 - 26) .positive a (log2_sqrt range.1 range.2)
      (by omega)
  refine ⟨m', e', h, rounded, full', by omega, ?_⟩
  rcases greatest with small | ⟨rfl, rfl⟩
  · omega
  · have root : Nat.sqrt n < 2 ^ 52 + 1 := by
      refine Nat.mul_self_lt_mul_self_iff.mp (Nat.lt_of_le_of_lt (Nat.sqrt_le n) ?_)
      rw [← hn]
      decide
    omega

/-- Without its fraction such a root is not above the 31st power of two. -/
theorem toInt64_bounds {m : Nat} {e : Int} (pos : 0 < m) (full : m.log2 = 52) (least : -52 ≤ e)
    (greatest : e ≤ -22 ∨ e = -21 ∧ m ≤ 2 ^ 52 + 1) :
    0 ≤ (UnpackedFloat.toInt64 (.finite .positive m e pos)).toInt ∧
      (UnpackedFloat.toInt64 (.finite .positive m e pos)).toInt ≤ 2 ^ 31 := by
  have value : UnpackedFloat.toInt Int64.minValue.toInt Int64.maxValue.toInt
      (.finite .positive m e pos) = (m / 2 ^ (-e).toNat : Nat) := by
    have up : (e - 0).toNat = 0 := by omega
    have down : (0 - (e - (0 : Nat))).toNat = (-e).toNat := by omega
    simp only [UnpackedFloat.toInt, roundToInt, decreaseExponent, up, shiftToExponent, down,
      mantissa_shiftRight, mantissa_ofMantissaAndAccuracy, Nat.shiftLeft_zero, Sign.apply]
  have bound : m / 2 ^ (-e).toNat ≤ 2 ^ 31 := by
    rcases greatest with small | ⟨rfl, near⟩
    · have short := (log2_eq_52_iff.mp full).2
      have power : 2 ^ 22 ≤ 2 ^ (-e).toNat := Nat.pow_le_pow_right (by decide) (by omega)
      exact Nat.div_le_of_le_mul (by omega)
    · show m / 2 ^ 21 ≤ 2 ^ 31
      omega
  rw [UnpackedFloat.toInt64, value, Int64.toInt_ofIntClamp]
  · exact ⟨Int.natCast_nonneg _, Int.ofNat_le.mpr bound⟩
  · exact Int.le_trans (by decide) (Int.natCast_nonneg _)
  · exact Int.le_trans (Int.ofNat_le.mpr bound) (by decide)

/-- The root of a number below the 62nd power of two, without its fraction, is not
above the 31st. -/
theorem toInt64_sqrt_bounds {n : Int} (least : 0 ≤ n) (greatest : n < 2 ^ 62) :
    0 ≤ (Float.Model.ofInt64 (Int64.ofInt n)).sqrt.toInt64.toInt ∧
      (Float.Model.ofInt64 (Int64.ofInt n)).sqrt.toInt64.toInt ≤ 2 ^ 31 := by
  have same : (Int64.ofInt n).toInt = n :=
    Int64.toInt_ofInt_of_le (by omega) (by omega)
  rw [Float.Model.ofInt64, UnpackedFloat.ofInt64, same]
  rcases Int.lt_or_eq_of_le least with pos | rfl
  · obtain ⟨m, e, h, converted, full, low, high⟩ := ofInt_eq pos greatest
    obtain ⟨m', e', h', rooted, full', low', high'⟩ := sqrt_eq h full low high
    rw [converted, Float.Model.sqrt, unpack_pack _ h full (by omega) (by omega), rooted,
      Float.Model.toInt64, unpack_pack _ h' full' (by omega) (by omega)]
    exact toInt64_bounds h' full' low' high'
  · decide +kernel

end LineBasic.Binary64
