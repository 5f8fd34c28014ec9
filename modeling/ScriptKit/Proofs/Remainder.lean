import ScriptKit.Operator
import ScriptKit.Proofs.Rounding

/-!
# The remainder of doubles

Two finite doubles are whole multiples of one power of two, and the remainder of the multiples is a
number of at most 53 bits: it is smaller than the divisor and not greater than the dividend, one of
which has the smaller exponent. So rounding does not change it, and the remainder of the doubles is
exact, however great their quotient is.
-/

set_option autoImplicit false

namespace ScriptKit.Number

open Float.Model Float.Model.UnpackedFloat

/-! ## Exact values and signs -/

/-- The factor of a sign. -/
def signFactor : Sign → ℤ
  | .positive => 1
  | .negative => -1

/-- The number `±m · 2^e`. -/
def dyadic (sign : Sign) (m : Nat) (e : Int) : ℚ := signFactor sign * (m * 2 ^ e)

/-- The exact value of a double, if it is finite. -/
def exactValue? (x : Float) : Option ℚ :=
  match x.toModel.unpack with
  | .finite sign m e _ => some (dyadic sign m e)
  | .zero _ => some 0
  | .infinity _ | .notANumber => none

/-- The first of the 64 bits of a double. -/
def signBit (x : Float) : Bool := x.toBits.toBitVec.msb

section Unpack

variable {x y : Float} {sign : Sign} {m : Nat} {e : Int} {hm : 0 < m}

/-- The exact value of a double is told by its sign, its mantissa and its exponent. -/
theorem exactValue?_of_finite (hx : x.toModel.unpack = .finite sign m e hm) :
    exactValue? x = some (dyadic sign m e) := by
  rw [exactValue?, hx]

/-- The exact value of either zero is zero. -/
theorem exactValue?_of_zero (hx : x.toModel.unpack = .zero sign) : exactValue? x = some 0 := by
  rw [exactValue?, hx]

/-- The first bit of a double is the sign that is unpacked from it. -/
theorem signBit_eq (x : Float) :
    signBit x = (@unpackSign .binary64 x.toModel.toBits.toBitVec).getLsbD 0 := by
  rw [unpackSign_def, BitVec.getLsbD_extractLsb']
  exact BitVec.msb_eq_getLsbD_last _

/-- Finite doubles of one sign have the same first bit. -/
theorem signBit_eq_of_unpack
    (hx : x.toModel.unpack = .zero sign ∨ ∃ m e hm, x.toModel.unpack = .finite sign m e hm)
    (hy : y.toModel.unpack = .zero sign ∨ ∃ m e hm, y.toModel.unpack = .finite sign m e hm) :
    signBit x = signBit y := by
  have hsame := congrArg Sign.toBitVec ((sign_of_unpack hx).symm.trans (sign_of_unpack hy))
  rw [Sign.toBitVec_ofBitVec, Sign.toBitVec_ofBitVec] at hsame
  rw [signBit_eq, signBit_eq, hsame]

/-- The doubles that are unpacked to a zero. -/
theorem eq_zero_of_unpack (hx : x.toModel.unpack = .zero sign) : x = 0 ∨ x = -0 := by
  have hbits := (unpack_eq_zero_iff_of_valid x.toModel.valid).mp hx
  cases sign with
  | positive => exact .inl (Float.toBits_inj.mp (UInt64.toBitVec_inj.mp hbits))
  | negative => exact .inr (Float.toBits_inj.mp (UInt64.toBitVec_inj.mp hbits))

/-- What counts as equal to zero is one of the two zeros. -/
theorem beq_zero_iff : (x == 0) = true ↔ x = 0 ∨ x = -0 := by
  have hzero : (0 : Float) ≠ Float.nan := Float.beq_self_iff.mp (by decide +kernel)
  have hminus : (-0 : Float) ≠ Float.nan := Float.beq_self_iff.mp (by decide +kernel)
  rw [Float.beq_iff_ne_nan_and_eq]
  constructor
  · rintro ⟨-, -, h | ⟨h, -⟩ | ⟨h, -⟩⟩
    · exact .inl h
    · exact .inl h
    · exact .inr h
  · rintro (rfl | rfl)
    · exact ⟨hzero, hzero, .inl rfl⟩
    · exact ⟨hminus, hzero, .inr (.inr ⟨rfl, rfl⟩)⟩

end Unpack

/-! ## Exact remainders -/

section Remainder

variable {x y : Float} {sign sign' : Sign} {m n : Nat} {e f : Int} {hm : 0 < m} {hn : 0 < n}

/-- Nothing is left of zero, whatever is cut off. -/
theorem zero_shiftRight (s : Nat) :
    (⟨0, false, false⟩ : ExtendedMantissa) >>> s = ⟨0, false, false⟩ := by
  induction s with
  | zero => rfl
  | succ s ih =>
    show ExtendedMantissa.shiftRightOne ((⟨0, false, false⟩ : ExtendedMantissa) >>> s) = _
    rw [ih]
    rfl

/-- Zero stays zero, whatever its exponent. -/
theorem round_zero (sign : Sign) (e : Int) : round .binary64 sign 0 e = .zero sign := by
  have hshift (e : Int) : ∃ e', shiftToTargetExponent .binary64 0 e .exact =
      (⟨0, false, false⟩, e') := by
    simp [shiftToTargetExponent, shiftToExponent, ExtendedMantissa.ofMantissaAndAccuracy,
      zero_shiftRight]
  obtain ⟨t, ht⟩ : ∃ t, round .binary64 sign 0 e = roundWithAccuracy .binary64 sign 0 t .exact :=
    ⟨_, by simp only [UnpackedFloat.round, decreaseExponent, Nat.zero_shiftLeft]; rfl⟩
  obtain ⟨e', hfirst⟩ := hshift t
  obtain ⟨e'', hsecond⟩ := hshift e'
  have hrounded : ExtendedMantissa.roundedMantissa ⟨0, false, false⟩ = 0 := rfl
  simp only [ht, roundWithAccuracy, hfirst, hrounded, hsecond]
  rfl

/-- A dyadic number of at most 53 bits is a double. -/
theorem unpack_ofDyadic (sign : Sign) {k : Nat} {g : Int} (hk : k < 2 ^ 53)
    (hleast : leastExponent ≤ g) (hgreatest : g ≤ greatestExponent) :
    exactValue? (ofDyadic sign k g) = some (dyadic sign k g) ∧
      ((ofDyadic sign k g).toModel.unpack = .zero sign ∨
        ∃ m e hm, (ofDyadic sign k g).toModel.unpack = .finite sign m e hm) := by
  rcases Nat.eq_zero_or_pos k with rfl | hpos
  · have hunpack : (ofDyadic sign 0 g).toModel.unpack = .zero sign := by
      rw [ofDyadic, round_zero]
      exact unpack_packedZero
    refine ⟨?_, .inl hunpack⟩
    rw [exactValue?_of_zero hunpack, dyadic, Nat.cast_zero, zero_mul, mul_zero]
  · have hlog : k.log2 ≤ 52 := Nat.lt_succ_iff.mp ((Nat.log2_lt hpos.ne').mpr hk)
    obtain ⟨m, e, hm, hround, hdouble, hle, hvalue⟩ := exists_round_exact sign hpos hleast hlog
    have hunpack : (ofDyadic sign k g).toModel.unpack = .finite sign m e hm := by
      rw [ofDyadic, hround]
      exact unpack_pack sign hdouble (hle.trans hgreatest)
    exact ⟨by rw [exactValue?_of_finite hunpack, dyadic, dyadic, hvalue], .inr ⟨m, e, hm, hunpack⟩⟩

/-- A dyadic number in units of a smaller power of two. -/
theorem shiftLeft_mul_zpow (m : Nat) {e g : Int} (h : g ≤ e) :
    ((m <<< (e - g).toNat : Nat) : ℚ) * 2 ^ g = m * 2 ^ e := by
  obtain ⟨j, hj⟩ : ∃ j : Nat, e = g + j := ⟨(e - g).toNat, by omega⟩
  subst hj
  rw [add_sub_cancel_left, Int.toNat_natCast, Nat.shiftLeft_eq, zpow_add₀ (by norm_num),
    zpow_natCast]
  push_cast
  ring

/-- In units of the smaller of two powers of two, the remainder of two mantissas is a mantissa. -/
theorem mod_lt_of_mantissas (hm : m < 2 ^ 53) (hn : n < 2 ^ 53) (hpos : 0 < n) (e f : Int) :
    (m <<< (e - min e f).toNat) % (n <<< (f - min e f).toNat) < 2 ^ 53 := by
  rcases le_total e f with hle | hle
  · rw [min_eq_left hle, Int.sub_self, Int.toNat_zero, Nat.shiftLeft_zero]
    exact (Nat.mod_le m _).trans_lt hm
  · rw [min_eq_right hle, Int.sub_self, Int.toNat_zero, Nat.shiftLeft_zero]
    exact (Nat.mod_lt _ hpos).trans hn

/-- Two equal signs cancel each other. -/
theorem signFactor_mul_self (sign : Sign) : signFactor sign * signFactor sign = 1 := by
  cases sign <;> rfl

/-- The sign does not change the size. -/
theorem abs_dyadic (sign : Sign) (m : Nat) (e : Int) : |dyadic sign m e| = m * 2 ^ e := by
  have hnonneg : (0 : ℚ) ≤ m * 2 ^ e := by positivity
  cases sign <;> simp [dyadic, signFactor, abs_of_nonneg hnonneg]

/-- The remainder of two finite doubles is exact. -/
theorem remainder_of_finite (hx : x.toModel.unpack = .finite sign m e hm)
    (hy : y.toModel.unpack = .finite sign' n f hn) :
    ∃ (q : ℚ) (k : ℤ), exactValue? (remainder x y) = some q ∧
      dyadic sign m e = dyadic sign' n f * k + q ∧ |q| < |dyadic sign' n f| ∧
      signBit (remainder x y) = signBit x := by
  obtain ⟨g, hg⟩ : ∃ g, g = min e f := ⟨_, rfl⟩
  obtain ⟨dividend, hdividend⟩ : ∃ a, a = m <<< (e - g).toNat := ⟨_, rfl⟩
  obtain ⟨divisor, hdivisor⟩ : ∃ b, b = n <<< (f - g).toNat := ⟨_, rfl⟩
  obtain ⟨rest, hrest⟩ : ∃ r, r = dividend % divisor := ⟨_, rfl⟩
  obtain ⟨quotient, hquotient⟩ : ∃ q, dividend = divisor * q + rest :=
    ⟨dividend / divisor, by rw [hrest, Nat.div_add_mod]⟩
  have hremainder : remainder x y = ofDyadic sign rest g := by
    rw [remainder, hx, hy, hrest, hdividend, hdivisor, hg]
  have hdouble := isDouble_of_unpack hx
  have hdouble' := isDouble_of_unpack hy
  have hle := exponent_le_of_unpack hx
  have hlt : rest < 2 ^ 53 := by
    rw [hrest, hdividend, hdivisor, hg]
    exact mod_lt_of_mantissas hdouble.lt hdouble'.lt hn e f
  obtain ⟨hvalue, hsign⟩ := unpack_ofDyadic sign hlt (hg ▸ le_min hdouble.least hdouble'.least)
    (show g ≤ greatestExponent by omega)
  -- Both doubles in units of the smaller power of two.
  have hx' : (m : ℚ) * 2 ^ e = (divisor * quotient + rest) * 2 ^ g := by
    rw [← shiftLeft_mul_zpow m (show g ≤ e by omega), ← hdividend, hquotient]
    push_cast
    rfl
  have hy' : (n : ℚ) * 2 ^ f = divisor * 2 ^ g := by
    rw [← shiftLeft_mul_zpow n (show g ≤ f by omega), ← hdivisor]
  refine ⟨_, signFactor sign * signFactor sign' * quotient, hremainder ▸ hvalue, ?_, ?_, ?_⟩
  · have hunit : (signFactor sign' : ℚ) * signFactor sign' = 1 := by
      exact_mod_cast signFactor_mul_self sign'
    rw [dyadic, dyadic, dyadic, hx', hy']
    push_cast
    linear_combination (-(signFactor sign : ℚ) * divisor * quotient * 2 ^ g) * hunit
  · rw [abs_dyadic, abs_dyadic, hy']
    have hsmaller : (rest : ℚ) < divisor := by
      have hpos : 0 < divisor := by
        rw [hdivisor, Nat.shiftLeft_eq]
        positivity
      rw [hrest]
      exact_mod_cast Nat.mod_lt dividend hpos
    exact mul_lt_mul_of_pos_right hsmaller (by positivity)
  · rw [hremainder]
    exact signBit_eq_of_unpack hsign (.inr ⟨m, e, hm, hx⟩)

/-- A finite double is its own remainder by an infinite one. -/
theorem remainder_of_isInf (hx : x.isFinite = true) (hy : y.isInf = true) : remainder x y = x := by
  change x.toModel.unpack.isFinite = true at hx
  change y.toModel.unpack.isInf = true at hy
  cases hunpack' : y.toModel.unpack with
  | infinity sign' =>
    cases hunpack : x.toModel.unpack with
    | zero | finite => rw [remainder, hunpack, hunpack']
    | notANumber | infinity => rw [hunpack] at hx; cases hx
  | notANumber | zero | finite => rw [hunpack'] at hy; cases hy

/-- If the dividend is not finite or the divisor is no number, then the remainder is no number. -/
theorem remainder_eq_nan (h : x.isFinite = false ∨ y.isNaN = true) : remainder x y = nan := by
  change x.toModel.unpack.isFinite = false ∨ y.toModel.unpack.isNaN = true at h
  cases hunpack : x.toModel.unpack with
  | notANumber | infinity =>
    cases hunpack' : y.toModel.unpack <;> rw [remainder, hunpack, hunpack']
  | zero | finite =>
    rw [hunpack] at h
    cases hunpack' : y.toModel.unpack with
    | notANumber => rw [remainder, hunpack, hunpack']
    | infinity | zero | finite => rw [hunpack'] at h; rcases h with h | h <;> cases h

/-- An infinite double and one that is no number are not finite. -/
theorem isFinite_eq_false (h : x.isInf = true ∨ x.isNaN = true) : x.isFinite = false := by
  change x.toModel.unpack.isInf = true ∨ x.toModel.unpack.isNaN = true at h
  change x.toModel.unpack.isFinite = false
  cases hunpack : x.toModel.unpack with
  | notANumber | infinity => rfl
  | zero | finite => rw [hunpack] at h; rcases h with h | h <;> cases h

/-- The remainder of finite doubles, also of zero, is exact. -/
theorem remainder_of_isFinite (hx : x.isFinite = true) (hy : y.isFinite = true)
    (hzero : ¬ (y = 0 ∨ y = -0)) :
    ∃ (v w q : ℚ) (k : ℤ), exactValue? x = some v ∧ exactValue? y = some w ∧
      exactValue? (remainder x y) = some q ∧ v = w * k + q ∧ |q| < |w| ∧
      signBit (remainder x y) = signBit x := by
  change x.toModel.unpack.isFinite = true at hx
  change y.toModel.unpack.isFinite = true at hy
  cases hunpack' : y.toModel.unpack with
  | notANumber | infinity => rw [hunpack'] at hy; cases hy
  | zero sign' => exact absurd (eq_zero_of_unpack hunpack') hzero
  | finite sign' n f hn =>
    have hdivisor := exactValue?_of_finite hunpack'
    cases hunpack : x.toModel.unpack with
    | notANumber | infinity => rw [hunpack] at hx; cases hx
    | zero sign =>
      have hself : remainder x y = x := by rw [remainder, hunpack, hunpack']
      have hvalue := exactValue?_of_zero hunpack
      refine ⟨0, _, 0, 0, hvalue, hdivisor, by rw [hself, hvalue], by simp, ?_, by rw [hself]⟩
      rw [abs_zero, abs_dyadic]
      positivity
    | finite sign m e hm =>
      obtain ⟨q, k, hvalue, hsplit, hlt, hsign⟩ := remainder_of_finite hunpack hunpack'
      exact ⟨_, _, q, k, exactValue?_of_finite hunpack, hdivisor, hvalue, hsplit, hlt, hsign⟩

end Remainder

end ScriptKit.Number

namespace ScriptKit.Operator

open Number

/-- The remainder of two numbers. It fails exactly if the divisor is one of the two zeros. Otherwise
its result is no number if the dividend is not finite or the divisor is no number, and the dividend
itself if that is finite and the divisor is not. For finite numbers the result is exact: it differs
from the dividend by a whole multiple of the divisor, is smaller than the divisor, and has the sign
of the dividend, also if it is zero. -/
theorem modulo_is_exact (x y : Float) :
    (modulo.apply (.number x) (.number y) = .error (.divisionByZero "%") ↔ y = 0 ∨ y = -0) ∧
    (¬ (y = 0 ∨ y = -0) → ∃ r, modulo.apply (.number x) (.number y) = .ok (.number r) ∧
      (x.isInf = true ∨ x.isNaN = true ∨ y.isNaN = true → r.isNaN = true) ∧
      (x.isFinite = true → y.isInf = true → r = x) ∧
      (x.isFinite = true → y.isFinite = true →
        ∃ (v w q : ℚ) (k : ℤ), exactValue? x = some v ∧ exactValue? y = some w ∧
          exactValue? r = some q ∧ v = w * k + q ∧ |q| < |w| ∧ signBit r = signBit x)) := by
  have happly : modulo.apply (.number x) (.number y) =
      if y == 0 then .error (.divisionByZero "%") else .ok (.number (remainder x y)) := rfl
  rw [happly]
  by_cases hzero : y = 0 ∨ y = -0
  · rw [if_pos (beq_zero_iff.mpr hzero)]
    exact ⟨iff_of_true rfl hzero, fun h => absurd hzero h⟩
  · rw [if_neg fun h => hzero (beq_zero_iff.mp h)]
    refine ⟨iff_of_false nofun hzero, fun _ => ⟨remainder x y, rfl, fun h => ?_,
      remainder_of_isInf, fun hx hy => remainder_of_isFinite hx hy hzero⟩⟩
    have hnone : x.isFinite = false ∨ y.isNaN = true := by
      rcases h with h | h | h
      · exact .inl (isFinite_eq_false (.inl h))
      · exact .inl (isFinite_eq_false (.inr h))
      · exact .inr h
    rw [remainder_eq_nan hnone]
    decide +kernel

/-- The remainder of -7 by 2 is exact and negative. -/
theorem modulo_is_exact_negative :
    Float.isFinite (-7) = true ∧ Float.isFinite 2 = true ∧ ¬ ((2 : Float) = 0 ∨ (2 : Float) = -0) ∧
    ∃ r, modulo.apply (.number (-7)) (.number 2) = .ok (.number r) ∧ signBit r = true ∧
      ∃ (v w q : ℚ) (k : ℤ), exactValue? (-7) = some v ∧ exactValue? 2 = some w ∧
        exactValue? r = some q ∧ v = w * k + q ∧ |q| < |w| := by
  have hx : Float.isFinite (-7) = true := by decide +kernel
  have hy : Float.isFinite 2 = true := by decide +kernel
  have hzero : ¬ ((2 : Float) = 0 ∨ (2 : Float) = -0) := by decide +kernel
  obtain ⟨r, happly, -, -, hexact⟩ := (modulo_is_exact (-7) 2).2 hzero
  obtain ⟨v, w, q, k, hv, hw, hq, hsplit, hlt, hsign⟩ := hexact hx hy
  have hnegative : signBit (-7) = true := by decide +kernel
  exact ⟨hx, hy, hzero, r, happly, hsign.trans hnegative, v, w, q, k, hv, hw, hq, hsplit, hlt⟩

end ScriptKit.Operator
