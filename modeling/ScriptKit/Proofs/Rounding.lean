import Mathlib
import ScriptKit.Number.Style
import ScriptKit.Number.Numeral

/-!
# Doubles and the numbers that round to them

A positive double is `m · 2^e` for a mantissa of 53 bits, or for a shorter one at the least
exponent. Around each double there is an interval of numbers that round to it, with its ends if the
mantissa is even. No number is in two of these intervals. Rounding a dyadic number finds the double
in whose interval it is, and the shortest decimal of a double is in the interval of that double. So
decimals can take the place of doubles, and nothing is lost.
-/

set_option autoImplicit false

namespace ScriptKit.Number

open Float.Model Float.Model.UnpackedFloat

/-! ## Intervals -/

/-- The mantissa and the exponent of a positive double, or of one that is too great. -/
structure IsDouble (m : Nat) (e : Int) : Prop where
  pos : 0 < m
  lt : m < 2 ^ 53
  least : leastExponent ≤ e
  normal : e = leastExponent ∨ leastNormalMantissa ≤ m

/-- The number is in the interval of those that round to `m · 2^e`. The ends belong to it if the
mantissa is even. -/
structure RoundsTo (v : ℚ) (m : Nat) (e : Int) : Prop where
  low_le : (roundingInterval m e).1 * 2 ^ (e - 2) ≤ v
  le_high : v ≤ (roundingInterval m e).2 * 2 ^ (e - 2)
  even : v = (roundingInterval m e).1 * 2 ^ (e - 2) ∨ v = (roundingInterval m e).2 * 2 ^ (e - 2) →
    m % 2 = 0

/-- The least mantissa of a normal double. -/
theorem leastNormalMantissa_eq : leastNormalMantissa = 2 ^ 52 := rfl

/-- The exponent of the subnormal doubles. -/
theorem leastExponent_eq : leastExponent = -1074 := rfl

/-- Intervals are measured in quarters of the unit. -/
theorem four_mul_zpow (e : Int) : (4 : ℚ) * 2 ^ (e - 2) = 2 ^ e := by
  rw [zpow_sub₀ (by norm_num)]
  norm_num
  ring

section Interval

variable {v : ℚ} {m m' : Nat} {e e' : Int}

/-- Upwards the interval goes half way to the next double. -/
theorem high_roundingInterval (m : Nat) (e : Int) : (roundingInterval m e).2 = 4 * m + 2 := rfl

/-- Downwards it goes half way, or a quarter from a power of two. -/
theorem low_roundingInterval (m : Nat) (e : Int) :
    (roundingInterval m e).1 =
      if m = leastNormalMantissa ∧ leastExponent < e then 4 * m - 1 else 4 * m - 2 := by
  unfold roundingInterval
  split_ifs <;> rfl

/-- The interval of a double begins below it. -/
theorem low_roundingInterval_lt (hm : 0 < m) (e : Int) : (roundingInterval m e).1 < 4 * m := by
  rw [low_roundingInterval]
  split_ifs <;> omega

/-- A double is inside its own interval. -/
theorem roundsTo_self (hm : 0 < m) (e : Int) : RoundsTo (m * 2 ^ e) m e := by
  have hpos : (0 : ℚ) < 2 ^ (e - 2) := by positivity
  have hself : (m : ℚ) * 2 ^ e = (4 * m : ℕ) * 2 ^ (e - 2) := by
    rw [← four_mul_zpow e]
    push_cast
    ring
  have hlow : ((roundingInterval m e).1 : ℚ) * 2 ^ (e - 2) < (4 * m : ℕ) * 2 ^ (e - 2) :=
    mul_lt_mul_of_pos_right (by exact_mod_cast low_roundingInterval_lt hm e) hpos
  have hhigh : ((4 * m : ℕ) : ℚ) * 2 ^ (e - 2) < (roundingInterval m e).2 * 2 ^ (e - 2) :=
    mul_lt_mul_of_pos_right (by rw [high_roundingInterval]; norm_cast; omega) hpos
  rw [hself]
  refine ⟨hlow.le, hhigh.le, ?_⟩
  rintro (h | h)
  · exact absurd h hlow.ne'
  · exact absurd h hhigh.ne

/-- What rounds to a positive double is positive. -/
theorem RoundsTo.pos (h : RoundsTo v m e) (hm : 0 < m) : 0 < v := by
  have hlow : 0 < (roundingInterval m e).1 := by
    rw [low_roundingInterval]
    split_ifs <;> omega
  have hpos : (0 : ℚ) < (roundingInterval m e).1 * 2 ^ (e - 2) := by positivity
  exact hpos.trans_le h.low_le

/-- Intervals of doubles with one exponent have no number in common. -/
theorem RoundsTo.mantissa_le (h : RoundsTo v m e) (h' : RoundsTo v m' e) (hd : IsDouble m e) :
    m' ≤ m := by
  by_contra! hlt
  have hpos : (0 : ℚ) < 2 ^ (e - 2) := by positivity
  have hlow : (roundingInterval m' e).1 = 4 * m' - 2 := by
    rw [low_roundingInterval, if_neg]
    rintro ⟨rfl, hleast⟩
    have hnormal := hd.normal
    omega
  -- The two intervals meet in one point at most, and of two neighbours only one is even.
  have hmeet : (roundingInterval m' e).1 ≤ (roundingInterval m e).2 := by
    have hle := le_of_mul_le_mul_right (h'.low_le.trans h.le_high) hpos
    exact_mod_cast hle
  have hends : (roundingInterval m' e).1 = (roundingInterval m e).2 := by
    rw [hlow, high_roundingInterval] at hmeet ⊢
    omega
  have hv : v = (roundingInterval m e).2 * 2 ^ (e - 2) :=
    le_antisymm h.le_high (hends ▸ h'.low_le)
  have heven := h.even (.inr hv)
  have heven' := h'.even (.inl (hends ▸ hv))
  rw [hlow, high_roundingInterval] at hends
  omega

/-- Intervals of doubles with different exponents have no number in common. -/
theorem RoundsTo.exponent_le (h : RoundsTo v m e) (h' : RoundsTo v m' e') (hd : IsDouble m e)
    (hd' : IsDouble m' e') : e' ≤ e := by
  by_contra! hlt
  have hpos : (0 : ℚ) < 2 ^ (e - 2) := by positivity
  have hstep : 2 * (2 : ℚ) ^ (e - 2) ≤ 2 ^ (e' - 2) := by
    rw [← zpow_one_add₀ (by norm_num)]
    exact zpow_le_zpow_right₀ (by norm_num) (by omega)
  have hlow : 2 ^ 54 - 1 ≤ (roundingInterval m' e').1 := by
    have hleast := hd.least
    have hnormal := hd'.normal
    rw [leastNormalMantissa_eq] at hnormal
    rw [low_roundingInterval, leastNormalMantissa_eq]
    split_ifs <;> omega
  have hlow' : ((2 ^ 54 - 1 : ℕ) : ℚ) ≤ (roundingInterval m' e').1 := by exact_mod_cast hlow
  -- The lower interval ends where the greatest mantissa, which is odd, would end.
  have hhigh : (roundingInterval m e).2 ≤ 2 * (2 ^ 54 - 1) := by
    have hm := hd.lt
    rw [high_roundingInterval]
    omega
  have hhigh' : ((roundingInterval m e).2 : ℚ) ≤ 2 * (2 ^ 54 - 1 : ℕ) := by exact_mod_cast hhigh
  have hbelow : 2 * ((2 ^ 54 - 1 : ℕ) : ℚ) * 2 ^ (e - 2) ≤ v := by
    calc 2 * ((2 ^ 54 - 1 : ℕ) : ℚ) * 2 ^ (e - 2)
        = (2 ^ 54 - 1 : ℕ) * (2 * 2 ^ (e - 2)) := by ring
      _ ≤ (roundingInterval m' e').1 * 2 ^ (e' - 2) := by gcongr
      _ ≤ v := h'.low_le
  have hends : (roundingInterval m e).2 = 2 * (2 ^ 54 - 1) := by
    have hle := le_of_mul_le_mul_right (hbelow.trans h.le_high) hpos
    have hle' : 2 * (2 ^ 54 - 1) ≤ (roundingInterval m e).2 := by exact_mod_cast hle
    omega
  have hv : v = (roundingInterval m e).2 * 2 ^ (e - 2) := by
    refine le_antisymm h.le_high ?_
    rw [hends]
    exact_mod_cast hbelow
  have heven := h.even (.inr hv)
  rw [high_roundingInterval] at hends
  omega

/-- No number rounds to two doubles. -/
theorem RoundsTo.unique (h : RoundsTo v m e) (h' : RoundsTo v m' e') (hd : IsDouble m e)
    (hd' : IsDouble m' e') : m = m' ∧ e = e' := by
  obtain rfl : e = e' := le_antisymm (h'.exponent_le h hd' hd) (h.exponent_le h' hd hd')
  exact ⟨le_antisymm (h'.mantissa_le h hd') (h.mantissa_le h' hd), rfl⟩

end Interval

/-! ## Decimals that read back -/

/-- The number that a decimal denotes. -/
def Decimal.value (x : Decimal) : ℚ := x.digits * 10 ^ x.exponent

section Decimals

variable {m d : Nat} {e k : Int}

/-- A power with an integer exponent, by natural exponents. -/
theorem zpow_eq_div_toNat (x : ℚ) (k : Int) : x ^ k = x ^ k.toNat / x ^ (-k).toNat := by
  cases k with
  | ofNat n => simp
  | negSucc n => simp [zpow_negSucc]

/-- The two scales stand to each other as the units that are compared. -/
theorem scales_eq (e k : Int) :
    ((scales e k).1 : ℚ) * 2 ^ (e - 2) = 10 ^ k * (scales e k).2 ∧ 0 < (scales e k).2 := by
  have hpow : (scales e k).1 = 10 ^ k.toNat * 2 ^ (2 - e).toNat := Nat.shiftLeft_eq _ _
  have hpow' : (scales e k).2 = 10 ^ (-k).toNat * 2 ^ (e - 2).toNat := Nat.shiftLeft_eq _ _
  constructor
  · rw [hpow, hpow', zpow_eq_div_toNat 2 (e - 2), zpow_eq_div_toNat 10 k, Int.neg_sub]
    push_cast
    field_simp
  · rw [hpow']
    positivity

/-- Multiples of a power of ten are compared with quarters through the scales. -/
theorem mul_scales_le_iff (x : Nat) :
    (x * (scales e k).2 ≤ d * (scales e k).1 ↔ (x : ℚ) * 2 ^ (e - 2) ≤ d * 10 ^ k) ∧
      (d * (scales e k).1 ≤ x * (scales e k).2 ↔ (d : ℚ) * 10 ^ k ≤ x * 2 ^ (e - 2)) := by
  obtain ⟨hscales, hpos⟩ := scales_eq e k
  have hunit : (0 : ℚ) < 2 ^ (e - 2) := by positivity
  have hscale : (0 : ℚ) < (scales e k).2 := by exact_mod_cast hpos
  have hleft : (x : ℚ) * (scales e k).2 * 2 ^ (e - 2) =
      x * 2 ^ (e - 2) * (scales e k).2 := by ring
  have hright : (d : ℚ) * (scales e k).1 * 2 ^ (e - 2) = d * 10 ^ k * (scales e k).2 := by
    rw [mul_assoc, hscales, mul_assoc]
  rw [← mul_le_mul_iff_left₀ hscale, ← mul_le_mul_iff_left₀ (b := (d : ℚ) * 10 ^ k) hscale,
    ← hleft, ← hright, mul_le_mul_iff_left₀ hunit, mul_le_mul_iff_left₀ hunit]
  exact ⟨by norm_cast, by norm_cast⟩

/-- A decimal that passes the test for reading back is in the interval of the double. -/
theorem roundsTo_of_readsBack (h : readsBack m e k d = true) : RoundsTo (d * 10 ^ k) m e := by
  obtain ⟨hlow, hlow'⟩ := mul_scales_le_iff (d := d) (e := e) (k := k) (roundingInterval m e).1
  obtain ⟨hhigh, hhigh'⟩ := mul_scales_le_iff (d := d) (e := e) (k := k) (roundingInterval m e).2
  simp only [readsBack] at h
  split_ifs at h with heven
  · rw [Bool.and_eq_true, decide_eq_true_iff, decide_eq_true_iff] at h
    exact ⟨hlow.mp h.1, hhigh'.mp h.2, fun _ => heven⟩
  · rw [Bool.and_eq_true, decide_eq_true_iff, decide_eq_true_iff] at h
    have habove := lt_of_not_ge (mt hlow'.mpr (not_le_of_gt h.1))
    have hbelow := lt_of_not_ge (mt hhigh.mpr (not_le_of_gt h.2))
    refine ⟨habove.le, hbelow.le, ?_⟩
    rintro (hend | hend)
    · exact absurd hend habove.ne'
    · exact absurd hend hbelow.ne

/-- What is picked from a grid passes the test for reading back. -/
theorem readsBack_of_nearestOnGrid (h : nearestOnGrid m e k = some d) :
    readsBack m e k d = true := by
  simp only [nearestOnGrid] at h
  split at h
  · cases h
  · cases h
    assumption
  · cases h
    assumption
  · split_ifs at h <;> cases h <;> assumption

/-- What the search over grids finds passes the test for reading back. -/
theorem readsBack_of_searchGrids {rounds : Nat} {x : Decimal}
    (h : searchGrids m e rounds k = some x) : readsBack m e x.exponent x.digits = true := by
  induction rounds generalizing k with
  | zero => cases h
  | succ rounds ih =>
    rw [searchGrids] at h
    split at h
    · cases h
      exact readsBack_of_nearestOnGrid ‹_›
    · exact ih h

/-- The expansion is the number itself. -/
theorem value_expansion (m : Nat) (e : Int) : (expansion m e).value = m * 2 ^ e := by
  unfold expansion Decimal.value
  split_ifs with he
  · obtain ⟨n, rfl⟩ := Int.eq_ofNat_of_zero_le he
    simp [Nat.shiftLeft_eq]
  · obtain ⟨n, hn⟩ := Int.eq_ofNat_of_zero_le (a := -e) (by omega)
    obtain rfl : e = -n := by omega
    have hpow : m * Nat.pow 5 n = m * 5 ^ n := rfl
    rw [Int.neg_neg, Int.toNat_natCast, hpow, zpow_neg, zpow_neg, zpow_natCast, zpow_natCast]
    push_cast
    rw [show (10 : ℚ) = 5 * 2 by norm_num, mul_pow]
    field_simp

/-- The shortest decimal of a double rounds to it. -/
theorem roundsTo_shortest (hm : 0 < m) (e : Int) : RoundsTo (shortest m e).value m e := by
  unfold shortest
  cases hsearch : searchGrids m e 20 (gridAbove m e) with
  | some x => exact roundsTo_of_readsBack (readsBack_of_searchGrids hsearch)
  | none =>
    rw [Option.getD_none, value_expansion]
    exact roundsTo_self hm e

end Decimals

/-! ## Rounding -/

section Round

variable {m n s : Nat} {e : Int} {sign : Sign}

/-- What is left of a number when so many bits are cut off: the quotient, whether the rest is at
least half of what is cut off, and whether it is neither zero nor just the half. -/
structure CutOff (n s : Nat) (em : ExtendedMantissa) : Prop where
  mantissa : em.mantissa = n / 2 ^ s
  roundBit : em.roundBit = decide (2 ^ s ≤ 2 * (n % 2 ^ s))
  stickyBit : em.stickyBit = decide (2 * (n % 2 ^ s) % 2 ^ s ≠ 0)

/-- Cutting off one bit more. -/
theorem CutOff.shiftRightOne {em : ExtendedMantissa} (h : CutOff n s em) :
    CutOff n (s + 1) em.shiftRightOne := by
  have hmod : n % 2 ^ (s + 1) = n % 2 ^ s + 2 ^ s * (n / 2 ^ s % 2) := by
    rw [pow_succ, Nat.mod_mul]
  have hrest : n % 2 ^ s < 2 ^ s := Nat.mod_lt _ (by positivity)
  have hdouble : 2 * (n % 2 ^ (s + 1)) % 2 ^ (s + 1) = 2 * (n % 2 ^ s) := by
    rw [pow_succ', Nat.mul_mod_mul_left, ← pow_succ', hmod, Nat.add_mul_mod_self_left,
      Nat.mod_eq_of_lt hrest]
  refine ⟨?_, ?_, ?_⟩
  · rw [ExtendedMantissa.shiftRightOne, h.mantissa, pow_succ, Nat.div_div_eq_div_mul]
  · rw [ExtendedMantissa.shiftRightOne, h.mantissa, hmod, pow_succ]
    rcases Nat.mod_two_eq_zero_or_one (n / 2 ^ s) with hbit | hbit <;> simp [hbit] <;> omega
  · rw [ExtendedMantissa.shiftRightOne, h.roundBit, h.stickyBit, hdouble, ← Bool.decide_or,
      decide_eq_decide]
    by_cases hhalf : 2 ^ s ≤ 2 * (n % 2 ^ s)
    · have hpos : 0 < 2 ^ s := by positivity
      simp only [hhalf, true_or, true_iff]
      omega
    · simp only [hhalf, false_or, Nat.mod_eq_of_lt (not_le.mp hhalf)]

/-- Shifting to the right cuts bits off, one after the other. -/
theorem cutOff_shiftRight (n s : Nat) :
    CutOff n s ((⟨n, false, false⟩ : ExtendedMantissa) >>> s) := by
  induction s with
  | zero =>
    have hself : (⟨n, false, false⟩ : ExtendedMantissa) >>> 0 = ⟨n, false, false⟩ := rfl
    rw [hself]
    exact ⟨by simp, by simp [Nat.mod_one], by simp [Nat.mod_one]⟩
  | succ s ih => exact ih.shiftRightOne

/-- The rounded mantissa is nearest to what it was cut off from, and of two that are equally near it
is the even one. -/
theorem CutOff.roundedMantissa {em : ExtendedMantissa} (h : CutOff n s em) :
    2 ^ s * (2 * em.roundedMantissa) ≤ 2 * n + 2 ^ s ∧
      2 * n ≤ 2 ^ s * (2 * em.roundedMantissa + 1) ∧
      (2 ^ s * (2 * em.roundedMantissa) = 2 * n + 2 ^ s ∨
        2 * n = 2 ^ s * (2 * em.roundedMantissa + 1) → em.roundedMantissa % 2 = 0) := by
  obtain ⟨q, round, sticky⟩ := em
  obtain ⟨hq, hround, hsticky⟩ := h
  dsimp only at hq hround hsticky
  have hdiv := Nat.div_add_mod n (2 ^ s)
  have hrest : n % 2 ^ s < 2 ^ s := Nat.mod_lt _ (by positivity)
  rw [← hq] at hdiv
  generalize 2 ^ s = p at *
  generalize n % p = r at *
  have hdouble : p * (2 * q) = 2 * (p * q) := by ring
  have hnext : p * (2 * q + 1) = 2 * (p * q) + p := by ring
  by_cases hhalf : p ≤ 2 * r
  · have hmod : 2 * r % p = 2 * r - p := by
      rw [Nat.mod_eq_sub_mod hhalf, Nat.mod_eq_of_lt (by omega)]
    by_cases htie : 2 * r = p
    · -- The number is half way between two mantissas.
      have hresult : ExtendedMantissa.roundedMantissa ⟨q, round, sticky⟩ = q + q % 2 := by
        simp [hround, hsticky, htie, ExtendedMantissa.roundedMantissa,
          ExtendedMantissa.accuracy, Accuracy.roundToNearestEven]
      rw [hresult]
      rcases Nat.mod_two_eq_zero_or_one q with hbit | hbit
      · rw [hbit, Nat.add_zero]
        omega
      · have hup : p * (2 * (q + 1)) = 2 * (p * q) + 2 * p := by ring
        have hup' : p * (2 * (q + 1) + 1) = 2 * (p * q) + 3 * p := by ring
        rw [hbit]
        omega
    · have hresult : ExtendedMantissa.roundedMantissa ⟨q, round, sticky⟩ = q + 1 := by
        have hne : 2 * r - p ≠ 0 := by omega
        simp [hround, hsticky, hhalf, hmod, hne, ExtendedMantissa.roundedMantissa,
          ExtendedMantissa.accuracy, Accuracy.roundToNearestEven]
      have hup : p * (2 * (q + 1)) = 2 * (p * q) + 2 * p := by ring
      have hup' : p * (2 * (q + 1) + 1) = 2 * (p * q) + 3 * p := by ring
      rw [hresult]
      omega
  · have hresult : ExtendedMantissa.roundedMantissa ⟨q, round, sticky⟩ = q := by
      rw [decide_eq_false hhalf] at hround
      subst hround
      cases sticky <;> rfl
    rw [hresult]
    omega

/-- A number is rounded to 53 bits, or to fewer if it is too small for them. -/
theorem targetExponent_eq (t : Int) :
    Format.binary64.targetExponent t = max (t - 53) leastExponent := rfl

/-- A double has the exponent that it should have. -/
theorem IsDouble.targetExponent (h : IsDouble m e) :
    Format.binary64.targetExponent (totalExponent m e) = e := by
  have hne : m ≠ 0 := h.pos.ne'
  have hle : m.log2 < 53 := (Nat.log2_lt hne).mpr h.lt
  have hleast := h.least
  rw [targetExponent_eq, totalExponent]
  rcases h.normal with hnormal | hnormal
  · omega
  · have hge : 52 ≤ m.log2 := (Nat.le_log2 hne).mpr hnormal
    omega

/-- The exponent of a double is not shifted. -/
theorem IsDouble.shiftToTargetExponent (h : IsDouble m e) :
    shiftToTargetExponent .binary64 m e .exact = (⟨m, false, false⟩, e) := by
  simp only [UnpackedFloat.shiftToTargetExponent, shiftToExponent, h.targetExponent, Int.sub_self]
  simp [ExtendedMantissa.ofMantissaAndAccuracy, HShiftRight.hShiftRight, Nat.repeat]

/-- Rounding is a shift, the choice of the nearest mantissa and a second shift. -/
theorem roundWithAccuracy_eq {em em' : ExtendedMantissa} {e' e'' : Int}
    (hfirst : shiftToTargetExponent .binary64 n e .exact = (em, e'))
    (hsecond : shiftToTargetExponent .binary64 em.roundedMantissa e' .exact = (em', e''))
    (hpos : 0 < em'.mantissa) :
    roundWithAccuracy .binary64 sign n e .exact = .finite sign em'.mantissa e'' hpos := by
  simp only [roundWithAccuracy, hfirst, hsecond]
  rw [dif_neg hpos.ne']

/-- Each factor of two adds a bit. -/
theorem log2_mul_two_pow (hn : n ≠ 0) (j : Nat) : (n * 2 ^ j).log2 = n.log2 + j := by
  induction j with
  | zero => simp
  | succ j ih =>
    rw [pow_succ', Nat.mul_left_comm, Nat.log2_two_mul (by positivity), ih, Nat.add_assoc]

/-- A number of few bits is a double, with its exponent made smaller. -/
theorem exists_round_exact (sign : Sign) (hn : 0 < n) (he : leastExponent ≤ e)
    (hlog : n.log2 ≤ 52) :
    ∃ (m' : Nat) (e' : Int) (hpos : 0 < m'), round .binary64 sign n e = .finite sign m' e' hpos ∧
      IsDouble m' e' ∧ e' ≤ e ∧ (n : ℚ) * 2 ^ e = m' * 2 ^ e' := by
  obtain ⟨t, ht⟩ : ∃ t, t = max ((n.log2 : Int) + 1 + e - 53) leastExponent := ⟨_, rfl⟩
  obtain ⟨j, hj⟩ : ∃ j, j = (e - t).toNat := ⟨_, rfl⟩
  have hexponent : e - j = t := by omega
  have hpos : 0 < n * 2 ^ j := by positivity
  have hlog2 := log2_mul_two_pow hn.ne' j
  have hdouble : IsDouble (n * 2 ^ j) t := by
    refine ⟨hpos, ?_, by omega, ?_⟩
    · rw [← Nat.log2_lt hpos.ne', hlog2]
      omega
    · rcases eq_or_ne t leastExponent with hleast | hleast
      · exact .inl hleast
      · rw [leastNormalMantissa_eq, ← Nat.le_log2 hpos.ne', hlog2]
        omega
  have hvalue : (n : ℚ) * 2 ^ e = (n * 2 ^ j : ℕ) * 2 ^ t := by
    have hsplit : (2 : ℚ) ^ e = 2 ^ j * 2 ^ t := by
      rw [← zpow_natCast, ← zpow_add₀ (by norm_num)]
      congr 1
      omega
    rw [hsplit]
    push_cast
    ring
  refine ⟨n * 2 ^ j, t, hpos, ?_, hdouble, by omega, hvalue⟩
  have hround : round .binary64 sign n e =
      roundWithAccuracy .binary64 sign (n * 2 ^ j) t .exact := by
    simp only [UnpackedFloat.round, decreaseExponent, targetExponent_eq, totalExponent, ← ht, ← hj,
      hexponent, Nat.shiftLeft_eq]
  rw [hround]
  exact roundWithAccuracy_eq hdouble.shiftToTargetExponent hdouble.shiftToTargetExponent hpos

/-- A number of few bits rounds to itself. -/
theorem exists_round_of_log2_le (hn : 0 < n) (he : leastExponent ≤ e) (hlog : n.log2 ≤ 52) :
    ∃ (m' : Nat) (e' : Int) (hpos : 0 < m'), round .binary64 sign n e = .finite sign m' e' hpos ∧
      IsDouble m' e' ∧ RoundsTo (n * 2 ^ e) m' e' := by
  obtain ⟨m', e', hpos, hround, hdouble, -, hvalue⟩ := exists_round_exact sign hn he hlog
  exact ⟨m', e', hpos, hround, hdouble, hvalue ▸ roundsTo_self hpos e'⟩

/-- The interval of a double whose exponent is greater by so many, in whole numbers. -/
theorem roundsTo_shifted (hlow : 2 ^ s * (roundingInterval m (e + s)).1 ≤ 4 * n)
    (hhigh : 4 * n ≤ 2 ^ s * (roundingInterval m (e + s)).2)
    (heven : 4 * n = 2 ^ s * (roundingInterval m (e + s)).1 ∨
      4 * n = 2 ^ s * (roundingInterval m (e + s)).2 → m % 2 = 0) :
    RoundsTo (n * 2 ^ e) m (e + s) := by
  have hpos : (0 : ℚ) < 2 ^ (e - 2) := by positivity
  have hself : (n : ℚ) * 2 ^ e = (4 * n : ℕ) * 2 ^ (e - 2) := by
    rw [← four_mul_zpow e]
    push_cast
    ring
  have hend (x : Nat) : (x : ℚ) * 2 ^ (e + s - 2) = (2 ^ s * x : ℕ) * 2 ^ (e - 2) := by
    rw [show e + s - 2 = s + (e - 2) by ring, zpow_add₀ (by norm_num), zpow_natCast]
    push_cast
    ring
  refine ⟨?_, ?_, ?_⟩
  · rw [hself, hend, mul_le_mul_iff_left₀ hpos]
    exact_mod_cast hlow
  · rw [hself, hend, mul_le_mul_iff_left₀ hpos]
    exact_mod_cast hhigh
  · rw [hself, hend, hend, mul_left_inj' hpos.ne', mul_left_inj' hpos.ne', Nat.cast_inj,
      Nat.cast_inj]
    exact heven

/-- A mantissa that has become one bit too long is a power of two. -/
theorem shiftToTargetExponent_carry (he : leastExponent ≤ e) :
    shiftToTargetExponent .binary64 (2 ^ 53) e .exact = (⟨2 ^ 52, false, false⟩, e + 1) := by
  have htarget : Format.binary64.targetExponent (totalExponent (2 ^ 53) e) = e + 1 := by
    rw [targetExponent_eq, totalExponent, Nat.log2_two_pow]
    omega
  simp only [shiftToTargetExponent, shiftToExponent, htarget, add_sub_cancel_left]
  rfl

/-- A mantissa of 53 bits that is nearest to a number. -/
theorem roundsTo_of_nearest (hmin : 2 ^ s * 2 ^ 52 ≤ n)
    (hlow : 2 ^ s * (2 * m) ≤ 2 * n + 2 ^ s) (hhigh : 2 * n ≤ 2 ^ s * (2 * m + 1))
    (heven : 2 ^ s * (2 * m) = 2 * n + 2 ^ s ∨ 2 * n = 2 ^ s * (2 * m + 1) → m % 2 = 0) :
    RoundsTo (n * 2 ^ e) m (e + s) := by
  have hpos : 0 < 2 ^ s := by positivity
  have hdouble : 2 ^ s * (2 * m) = 2 * (2 ^ s * m) := by ring
  have hnext : 2 ^ s * (2 * m + 1) = 2 * (2 ^ s * m) + 2 ^ s := by ring
  have htop : 2 ^ s * (4 * m + 2) = 4 * (2 ^ s * m) + 2 * 2 ^ s := by ring
  have hinterval := low_roundingInterval m (e + s)
  rw [leastNormalMantissa_eq] at hinterval
  by_cases hpower : m = 2 ^ 52
  · have hlow' : (roundingInterval m (e + s)).1 ≤ 4 * m := by
      rw [hinterval]
      split_ifs <;> omega
    have hmul := Nat.mul_le_mul_left (2 ^ s) hlow'
    have hfour : 2 ^ s * (4 * m) = 4 * (2 ^ s * 2 ^ 52) := by rw [hpower]; ring
    refine roundsTo_shifted (by omega) ?_ fun _ => by omega
    rw [high_roundingInterval]
    omega
  · rw [if_neg fun h => hpower h.1] at hinterval
    have hbottom : 2 ^ s * (4 * m - 2) = 4 * (2 ^ s * m) - 2 * 2 ^ s := by
      rw [Nat.mul_sub]
      congr 1 <;> ring
    have hle : 2 * 2 ^ s ≤ 4 * (2 ^ s * m) := by nlinarith
    apply roundsTo_shifted
    · rw [hinterval]
      omega
    · rw [high_roundingInterval]
      omega
    · rw [hinterval, high_roundingInterval]
      intro hends
      apply heven
      omega

/-- A mantissa of 54 bits that is nearest to a number is shortened. -/
theorem roundsTo_of_carry (hmax : n < 2 ^ s * 2 ^ 53)
    (hlow : 2 ^ s * (2 * 2 ^ 53) ≤ 2 * n + 2 ^ s) (he : leastExponent ≤ e) :
    RoundsTo (n * 2 ^ e) (2 ^ 52) (e + (s + 1 : ℕ)) := by
  have hinterval := low_roundingInterval (2 ^ 52) (e + (s + 1 : ℕ))
  rw [leastNormalMantissa_eq, if_pos ⟨rfl, by omega⟩] at hinterval
  apply roundsTo_shifted
  · rw [hinterval, pow_succ]
    norm_num at hlow ⊢
    linarith
  · rw [high_roundingInterval, pow_succ]
    linarith
  · intro _
    norm_num

/-- A number of many bits is rounded to the nearest mantissa. -/
theorem exists_round_of_lt_log2 (he : leastExponent ≤ e) (hlog : 52 < n.log2) :
    ∃ (m' : Nat) (e' : Int) (hpos : 0 < m'), round .binary64 sign n e = .finite sign m' e' hpos ∧
      IsDouble m' e' ∧ RoundsTo (n * 2 ^ e) m' e' := by
  obtain ⟨s, hs⟩ : ∃ s, n.log2 = 52 + s := ⟨n.log2 - 52, by omega⟩
  have hne : n ≠ 0 := by
    rintro rfl
    simp at hlog
  have htarget : Format.binary64.targetExponent (totalExponent n e) = e + s := by
    rw [targetExponent_eq, totalExponent, hs]
    omega
  have hfirst : shiftToTargetExponent .binary64 n e .exact =
      ((⟨n, false, false⟩ : ExtendedMantissa) >>> s, e + s) := by
    simp [shiftToTargetExponent, shiftToExponent, htarget, ExtendedMantissa.ofMantissaAndAccuracy]
  have hround : round .binary64 sign n e = roundWithAccuracy .binary64 sign n e .exact := by
    simp [UnpackedFloat.round, decreaseExponent, htarget]
  obtain ⟨hlow, hhigh, heven⟩ := (cutOff_shiftRight n s).roundedMantissa
  generalize (⟨n, false, false⟩ : ExtendedMantissa) >>> s = em at *
  have hpos : 0 < 2 ^ s := by positivity
  have hmin : 2 ^ s * 2 ^ 52 ≤ n := by
    rw [← pow_add, Nat.add_comm, ← hs]
    exact Nat.log2_self_le hne
  have hmax : n < 2 ^ s * 2 ^ 53 := by
    rw [← pow_add, show s + 53 = n.log2 + 1 by omega]
    exact Nat.lt_log2_self
  have hge : 2 ^ 52 ≤ em.roundedMantissa := by nlinarith
  have hle : em.roundedMantissa ≤ 2 ^ 53 := by nlinarith
  rw [hround]
  rcases hle.lt_or_eq with hlt | hcarry
  · have hdouble : IsDouble em.roundedMantissa (e + s) :=
      ⟨by omega, hlt, by omega, .inr hge⟩
    exact ⟨_, _, _, roundWithAccuracy_eq hfirst hdouble.shiftToTargetExponent hdouble.pos, hdouble,
      roundsTo_of_nearest hmin hlow hhigh heven⟩
  · have hsecond := shiftToTargetExponent_carry (e := e + s) (by omega)
    rw [← hcarry] at hsecond
    refine ⟨_, _, _, roundWithAccuracy_eq hfirst hsecond (by decide), ?_, ?_⟩
    · exact ⟨by decide, by decide, by omega, .inr le_rfl⟩
    · rw [hcarry] at hlow
      have hrounds := roundsTo_of_carry hmax hlow he
      rwa [Nat.cast_succ, ← add_assoc] at hrounds

/-- Rounding a dyadic number that is not too small finds the double to which it rounds. -/
theorem exists_round (sign : Sign) (hn : 0 < n) (he : leastExponent ≤ e) :
    ∃ (m' : Nat) (e' : Int) (hpos : 0 < m'), round .binary64 sign n e = .finite sign m' e' hpos ∧
      IsDouble m' e' ∧ RoundsTo (n * 2 ^ e) m' e' := by
  rcases Nat.lt_or_ge 52 n.log2 with hlog | hlog
  · exact exists_round_of_lt_log2 he hlog
  · exact exists_round_of_log2_le hn he hlog

end Round

/-! ## Doubles -/

/-- The greatest exponent of a finite double. -/
def greatestExponent : Int := 971

section Doubles

variable {x y : Float} {sign : Sign} {m n : Nat} {e : Int} {hm : 0 < m}

/-- What is unpacked from a double has its mantissa and exponent. -/
theorem isDouble_of_unpack (hx : x.toModel.unpack = .finite sign m e hm) : IsDouble m e := by
  have hbias : Format.binary64.exponentBias = 1023 := rfl
  unfold Float.Model.unpack UnpackedFloat.unpack at hx
  simp only [hbias] at hx
  obtain ⟨mantissa, hmantissa⟩ : ∃ b, b = @unpackMantissa .binary64 x.toModel.toBits.toBitVec :=
    ⟨_, rfl⟩
  obtain ⟨exponent, hexponent⟩ : ∃ b, b = @unpackExponent .binary64 x.toModel.toBits.toBitVec :=
    ⟨_, rfl⟩
  rw [← hexponent] at hx
  have hlt : mantissa.toNat < 2 ^ 52 := mantissa.isLt
  split_ifs at hx with hspecial hinfinite hleast hzero
  · -- A subnormal number
    obtain ⟨-, rfl, rfl⟩ := UnpackedFloat.finite.inj hx
    rw [← hmantissa] at hm ⊢
    exact ⟨hm, by omega, by rw [hleast]; decide, .inl (by rw [hleast]; rfl)⟩
  · obtain ⟨-, rfl, rfl⟩ := UnpackedFloat.finite.inj hx
    rw [← hmantissa] at hm ⊢
    have hpos : exponent.toNat ≠ 0 := fun h => hleast (BitVec.eq_of_toNat_eq h)
    have hlead : (1#1 ++ mantissa).toNat = 2 ^ 52 + mantissa.toNat := by
      rw [BitVec.toNat_append, Nat.shiftLeft_eq, Nat.mul_comm, ← Nat.two_pow_add_eq_or_of_lt hlt]
      rfl
    rw [hlead] at hm ⊢
    refine ⟨hm, by omega, ?_, .inr ?_⟩
    · rw [leastExponent_eq]
      push_cast
      omega
    · rw [leastNormalMantissa_eq]
      omega

/-- The exponent of a finite double is not too great. -/
theorem exponent_le_of_unpack (hx : x.toModel.unpack = .finite sign m e hm) :
    e ≤ greatestExponent := by
  have hbias : Format.binary64.exponentBias = 1023 := rfl
  unfold Float.Model.unpack UnpackedFloat.unpack at hx
  simp only [hbias] at hx
  obtain ⟨exponent, hexponent⟩ : ∃ b, b = @unpackExponent .binary64 x.toModel.toBits.toBitVec :=
    ⟨_, rfl⟩
  rw [← hexponent] at hx
  split_ifs at hx with hspecial hinfinite hleast hzero
  · obtain ⟨-, -, rfl⟩ := UnpackedFloat.finite.inj hx
    rw [hleast]
    decide
  · obtain ⟨-, -, rfl⟩ := UnpackedFloat.finite.inj hx
    have hlt : exponent.toNat < 2 ^ 11 := exponent.isLt
    have hne : exponent.toNat ≠ 2 ^ 11 - 1 := fun h => hspecial (BitVec.eq_of_toNat_eq h)
    rw [greatestExponent]
    push_cast
    omega

/-- A mantissa of 53 bits loses its first bit when it is packed, and gets it back. -/
theorem toNat_one_append (hlow : 2 ^ 52 ≤ m) (hhigh : m < 2 ^ 53) :
    (1#1 ++ BitVec.ofNat 52 m).toNat = m := by
  have hrest : (BitVec.ofNat 52 m).toNat = m - 2 ^ 52 := by
    rw [BitVec.toNat_ofNat]
    omega
  have hlt : m - 2 ^ 52 < 2 ^ 52 := by omega
  have hlead : 1 <<< 52 ||| (m - 2 ^ 52) = 2 ^ 52 * 1 + (m - 2 ^ 52) := by
    rw [Nat.two_pow_add_eq_or_of_lt hlt, Nat.shiftLeft_eq, Nat.mul_comm]
  rw [BitVec.toNat_append, hrest]
  change 1 <<< 52 ||| (m - 2 ^ 52) = m
  omega

/-- A normal double is unpacked from its bits. -/
theorem unpack_pack_normal (sign : Sign) (hlow : 2 ^ 52 ≤ m) (hhigh : m < 2 ^ 53)
    (hleast : leastExponent ≤ e) (hgreatest : e ≤ greatestExponent) :
    UnpackedFloat.unpack .binary64 (UnpackedFloat.pack .binary64 (.finite sign m e hm)) =
      .finite sign m e hm := by
  rw [leastExponent_eq] at hleast
  rw [greatestExponent] at hgreatest
  have hlog : m.log2 = 52 := (Nat.log2_eq_iff hm.ne').mpr ⟨hlow, hhigh⟩
  obtain ⟨biased, hbiased⟩ : ∃ b : Nat, (b : Int) = e + 1075 := ⟨(e + 1075).toNat, by omega⟩
  have hpack : UnpackedFloat.pack .binary64 (.finite sign m e hm) =
      packComponents .binary64 sign (BitVec.ofNat _ biased) (BitVec.ofNat _ m) := by
    have hexponent : (e + (Format.binary64.exponentBias : Int) +
        (Format.binary64.mantissaBitsWithoutImplicit : Int)).toNat = biased := by
      change (e + 1023 + 52).toNat = biased
      omega
    simp only [UnpackedFloat.pack, hexponent, hlog]
    rw [if_neg (by omega), if_pos (by decide)]
  have htoNat : (BitVec.ofNat 11 biased).toNat = biased := by
    rw [BitVec.toNat_ofNat]
    omega
  have hspecial : BitVec.ofNat 11 biased ≠ -1#11 := by
    intro h
    have hall : (BitVec.ofNat 11 biased).toNat = 2047 := by rw [h]; rfl
    omega
  have hzero : BitVec.ofNat 11 biased ≠ 0#11 := by
    intro h
    have hnone : (BitVec.ofNat 11 biased).toNat = 0 := by rw [h]; rfl
    omega
  rw [hpack]
  unfold UnpackedFloat.unpack
  simp only [unpackMantissa_packComponents, unpackExponent_packComponents,
    unpackSign_packComponents, Sign.ofBitVec_toBitVec]
  rw [if_neg hspecial, if_neg hzero, UnpackedFloat.finite.injEq]
  refine ⟨rfl, toNat_one_append hlow hhigh, ?_⟩
  change ((BitVec.ofNat 11 biased).toNat : Int) - (1023 + 52) = e
  omega

/-- A subnormal double is unpacked from its bits. -/
theorem unpack_pack_subnormal (sign : Sign) (hhigh : m < 2 ^ 52) :
    UnpackedFloat.unpack .binary64
        (UnpackedFloat.pack .binary64 (.finite sign m leastExponent hm)) =
      .finite sign m leastExponent hm := by
  have hlog : m.log2 < 52 := (Nat.log2_lt hm.ne').mpr hhigh
  have hpack : UnpackedFloat.pack .binary64 (.finite sign m leastExponent hm) =
      packComponents .binary64 sign 0#_ (BitVec.ofNat _ m) := by
    simp only [UnpackedFloat.pack]
    rw [if_neg (by decide), if_neg (by change ¬ m.log2 + 1 = 53; omega)]
  have htoNat : (BitVec.ofNat 52 m).toNat = m := by
    rw [BitVec.toNat_ofNat]
    omega
  have hne : BitVec.ofNat 52 m ≠ 0#52 := by
    intro h
    have hnone : (BitVec.ofNat 52 m).toNat = 0 := by rw [h]; rfl
    omega
  rw [hpack]
  unfold UnpackedFloat.unpack
  simp only [unpackMantissa_packComponents, unpackExponent_packComponents,
    unpackSign_packComponents, Sign.ofBitVec_toBitVec]
  rw [if_neg (by decide), if_pos trivial, dif_neg hne, UnpackedFloat.finite.injEq]
  exact ⟨rfl, htoNat, rfl⟩

/-- The mantissa and the exponent of a finite double are found again when it is unpacked. -/
theorem unpack_pack (sign : Sign) (h : IsDouble m e) (he : e ≤ greatestExponent) :
    UnpackedFloat.unpack .binary64 (UnpackedFloat.pack .binary64 (.finite sign m e h.pos)) =
      .finite sign m e h.pos := by
  rcases Nat.lt_or_ge m (2 ^ 52) with hlt | hge
  · obtain rfl : e = leastExponent := h.normal.resolve_right (by rw [leastNormalMantissa_eq]; omega)
    exact unpack_pack_subnormal sign hlt
  · exact unpack_pack_normal sign hge h.lt h.least he

/-- A double is known by what is unpacked from it. -/
theorem eq_of_unpack_eq (h : x.toModel.unpack = y.toModel.unpack) : x = y := by
  have hbits := (unpack_inj_of_valid x.toModel.valid y.toModel.valid).mp h
  rw [← Float.toBits_inj]
  exact UInt64.toBitVec_inj.mp hbits

/-- What is unpacked from a double packs into it. -/
theorem ofModel_pack_unpack (x : Float) : Float.ofModel (.pack x.toModel.unpack) = x := by
  rw [← Float.toBits_inj]
  exact UInt64.toBitVec_inj.mp (pack_unpack_of_valid x.toModel.valid)

/-- A natural number becomes a double by rounding. -/
theorem unpacked_ofNat (hn : 0 < n) :
    UnpackedFloat.ofNat .binary64 n = round .binary64 .positive n 0 := by
  have hcompare : compare (n : Int) 0 = .gt := compare_gt_iff_gt.mpr (by exact_mod_cast hn)
  simp [UnpackedFloat.ofNat, UnpackedFloat.ofInt, UnpackedFloat.normalize, hcompare]

/-- A natural number that rounds to a double is read as that double. -/
theorem ofNat_eq_of_roundsTo (hx : x.toModel.unpack = .finite .positive m e hm)
    (h : RoundsTo n m e) : ofNat n = x := by
  have hn : 0 < n := by exact_mod_cast h.pos hm
  obtain ⟨m', e', hm', hround, hdouble, hrounds⟩ :=
    exists_round .positive hn (e := 0) (by decide)
  rw [zpow_zero, mul_one] at hrounds
  obtain ⟨rfl, rfl⟩ := hrounds.unique h hdouble (isDouble_of_unpack hx)
  rw [ofNat, Float.Model.ofNat, unpacked_ofNat hn, hround, ← hx, ofModel_pack_unpack]

/-- Zero becomes the positive zero. -/
theorem ofNat_zero_eq (hx : x.toModel.unpack = .zero .positive) : ofNat 0 = x := by
  rw [← ofModel_pack_unpack x, hx]
  rfl

/-- The sign of a finite double is that of its bits. -/
theorem sign_of_unpack
    (hx : x.toModel.unpack = .zero sign ∨
      ∃ m e hm, x.toModel.unpack = .finite sign m e hm) :
    sign = .ofBitVec (@unpackSign .binary64 x.toModel.toBits.toBitVec) := by
  unfold Float.Model.unpack UnpackedFloat.unpack at hx
  simp only at hx
  split_ifs at hx <;> rcases hx with hx | ⟨m, e, hm, hx⟩ <;> cases hx <;> rfl

/-- Packing keeps the sign. -/
theorem unpackSign_pack (sign : Sign) (e : Int) (hm : 0 < m) :
    unpackSign (UnpackedFloat.pack .binary64 (.finite sign m e hm)) = sign.toBitVec := by
  simp only [UnpackedFloat.pack]
  split_ifs <;> exact unpackSign_packComponents _ _ _

/-- No natural number becomes a double with a minus. -/
theorem unpackSign_ofNat (n : Nat) :
    @unpackSign .binary64 (ofNat n).toModel.toBits.toBitVec = Sign.positive.toBitVec := by
  rcases Nat.eq_zero_or_pos n with rfl | hn
  · rfl
  · obtain ⟨m, e, hm, hround, -, -⟩ := exists_round .positive hn (e := 0) (by decide)
    rw [ofNat, Float.Model.ofNat, unpacked_ofNat hn, hround]
    exact unpackSign_pack .positive e hm

end Doubles

end ScriptKit.Number
