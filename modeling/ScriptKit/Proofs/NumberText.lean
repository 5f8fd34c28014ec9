import ScriptKit.Proofs.Rounding

/-!
# Numbers and their spellings

In source-like text a number is spelled with digits. A point stands among them where digits follow
it, and an exponent mark may stand behind. A spelling is a rational number, which can be read from
its text alone. The text of a double spells a number that rounds to this double, so no two doubles
have the same text, and a whole number that is written with its digits is read back from them.
-/

set_option autoImplicit false

namespace ScriptKit.Number

open Float.Model Float.Model.UnpackedFloat

/-! ## Digits -/

section Digits

/-- The digits are read as the library reads them, to the base ten. -/
theorem naturalOfDigits_eq (digits : List Char) :
    naturalOfDigits digits = Nat.ofDigitChars 10 digits 0 := rfl

/-- Digits in front count for as many tens as there are digits behind. -/
theorem naturalOfDigits_append (front back : List Char) :
    naturalOfDigits (front ++ back) =
      10 ^ back.length * naturalOfDigits front + naturalOfDigits back := by
  rw [naturalOfDigits_eq, Nat.ofDigitChars_append, Nat.ofDigitChars_eq_ofDigitChars_zero]
  rfl

/-- Zeros are read as zero. -/
theorem naturalOfDigits_zeros (n : Nat) : naturalOfDigits (List.replicate n '0') = 0 := by
  rw [naturalOfDigits_eq, Nat.ofDigitChars_replicate_zero, Nat.mul_zero]

/-- The digits of a number are read as the number. -/
theorem naturalOfDigits_decimalDigits (n : Nat) : naturalOfDigits (decimalDigits n) = n :=
  Nat.ofDigitChars_ten_toDigits

/-- The digits of a number are digits. -/
theorem isDigit_of_mem_decimalDigits {n : Nat} {c : Char} (h : c ∈ decimalDigits n) :
    c.isDigit = true :=
  Nat.isDigit_of_mem_toDigits (by decide) (by decide) h

/-- Zeros are digits. -/
theorem isDigit_of_mem_zeros {n : Nat} {c : Char} (h : c ∈ List.replicate n '0') :
    c.isDigit = true := by
  obtain rfl := List.eq_of_mem_replicate h
  rfl

end Digits

/-! ## Spellings -/

/-- The digits of a number in front of its point and behind it, and its exponent, if one is
written. -/
structure Spelling where
  whole : List Char
  fraction : List Char
  exponent : Option Int
  whole_ne_nil : whole ≠ []
  isDigit_whole : ∀ c ∈ whole, c.isDigit = true
  isDigit_fraction : ∀ c ∈ fraction, c.isDigit = true

namespace Spelling

/-- The digits and the point among them, which is there only where digits follow it. -/
def mantissa (s : Spelling) : List Char :=
  s.whole ++ if s.fraction = [] then [] else '.' :: s.fraction

/-- The text of a spelling. -/
def text (s : Spelling) : List Char := s.mantissa ++ s.exponent.elim [] exponentMark

/-- The number that is spelled. -/
def value (s : Spelling) : ℚ :=
  naturalOfDigits (s.whole ++ s.fraction) * 10 ^ (s.exponent.getD 0 - s.fraction.length)

/-- The exponent in an exponent mark. -/
def exponentOf : List Char → Int
  | _ :: sign :: digits => if sign = '-' then -naturalOfDigits digits else naturalOfDigits digits
  | _ => 0

/-- The number that a text spells. -/
def valueOf (text : List Char) : ℚ :=
  let mantissa := text.takeWhile (· != 'e')
  let whole := mantissa.takeWhile (· != '.')
  let fraction := (mantissa.dropWhile (· != '.')).drop 1
  naturalOfDigits (whole ++ fraction) *
    10 ^ (exponentOf (text.dropWhile (· != 'e')) - fraction.length)

/-- No digit is one of the marks between digits. -/
theorem ne_of_isDigit {c mark : Char} (hc : c.isDigit = true) (hmark : mark.isDigit = false) :
    (c != mark) = true := by
  rw [bne_iff_ne]
  rintro rfl
  exact absurd hc (by rw [hmark]; decide)

/-- The exponent is read back from its mark. -/
theorem exponentOf_exponentMark (k : Int) : exponentOf (exponentMark k) = k := by
  have hdigits : naturalOfDigits (List.replicate (2 - (decimalDigits k.natAbs).length) '0' ++
      decimalDigits k.natAbs) = k.natAbs := by
    rw [naturalOfDigits_append, naturalOfDigits_zeros, naturalOfDigits_decimalDigits]
    omega
  by_cases hk : k < 0
  · simp only [exponentMark, if_pos hk, exponentOf, hdigits, if_true]
    omega
  · have hsign : '+' ≠ '-' := by decide
    simp only [exponentMark, if_neg hk, exponentOf, hdigits, if_neg hsign]
    omega

section

variable (s : Spelling)

/-- The characters of the mantissa are digits and a point. -/
theorem isDigit_of_mem_mantissa {c : Char} (h : c ∈ s.mantissa) : c.isDigit = true ∨ c = '.' := by
  have hfraction := s.isDigit_fraction c
  rw [mantissa, List.mem_append] at h
  rcases h with h | h
  · exact .inl (s.isDigit_whole c h)
  · split_ifs at h with hempty
    · cases h
    · rcases List.mem_cons.mp h with rfl | h
      · exact .inr rfl
      · exact .inl (hfraction h)

/-- The mantissa is cut at its point. -/
theorem cut_mantissa :
    s.mantissa.takeWhile (· != '.') = s.whole ∧
      (s.mantissa.dropWhile (· != '.')).drop 1 = s.fraction := by
  have hwhole : ∀ c ∈ s.whole, (c != '.') = true := fun c hmem =>
    ne_of_isDigit (s.isDigit_whole c hmem) rfl
  rw [mantissa, List.takeWhile_append_of_pos hwhole, List.dropWhile_append_of_pos hwhole]
  split_ifs with hempty <;> simp [hempty]

/-- The text is cut in front of its exponent mark. -/
theorem cut_text :
    s.text.takeWhile (· != 'e') = s.mantissa ∧
      s.text.dropWhile (· != 'e') = s.exponent.elim [] exponentMark := by
  have hmantissa : ∀ c ∈ s.mantissa, (c != 'e') = true := by
    intro c hmem
    rcases s.isDigit_of_mem_mantissa hmem with hdigit | rfl
    · exact ne_of_isDigit hdigit rfl
    · decide
  rw [text, List.takeWhile_append_of_pos hmantissa, List.dropWhile_append_of_pos hmantissa]
  cases s.exponent <;> simp [exponentMark]

/-- The number that is spelled can be read from the text. -/
theorem valueOf_text : valueOf s.text = s.value := by
  have hexponent : exponentOf (s.exponent.elim [] exponentMark) = s.exponent.getD 0 := by
    cases s.exponent with
    | none => rfl
    | some k => exact exponentOf_exponentMark k
  simp only [valueOf, value, s.cut_text.1, s.cut_text.2, s.cut_mantissa.1, s.cut_mantissa.2,
    hexponent]

/-- The text begins with a digit. -/
theorem exists_text_eq_cons : ∃ c rest, s.text = c :: rest ∧ c.isDigit = true := by
  obtain ⟨c, rest, hwhole⟩ := List.exists_cons_of_ne_nil s.whole_ne_nil
  exact ⟨c, _, by rw [text, mantissa, hwhole]; rfl, s.isDigit_whole c (by simp [hwhole])⟩

/-- The characters of a spelling are digits, the point and those of an exponent mark. -/
theorem isDigit_of_mem_text {c : Char} (h : c ∈ s.text) :
    c.isDigit = true ∨ c ∈ ['.', 'e', '+', '-'] := by
  rw [text, List.mem_append] at h
  rcases h with h | h
  · rcases s.isDigit_of_mem_mantissa h with hdigit | rfl
    · exact .inl hdigit
    · decide
  · cases hexponent : s.exponent with
    | none =>
      rw [hexponent] at h
      cases h
    | some k =>
      simp only [hexponent, Option.elim_some, exponentMark, List.mem_cons, List.mem_append] at h
      rcases h with rfl | rfl | h | h
      · decide
      · split_ifs <;> decide
      · exact .inl (isDigit_of_mem_zeros h)
      · exact .inl (isDigit_of_mem_decimalDigits h)

end

end Spelling

/-! ## The text of a decimal -/

section Layout

variable {digits : List Char} (hdigits : ∀ c ∈ digits, c.isDigit = true) (hne : digits ≠ [])

include hdigits hne

/-- All digits behind the point. -/
theorem exists_spelling_small (zeros : Nat) :
    ∃ s : Spelling, s.text = '0' :: '.' :: (List.replicate zeros '0' ++ digits) ∧
      s.value = naturalOfDigits digits * 10 ^ (-(zeros + digits.length : Int)) := by
  have hfraction : ∀ c ∈ List.replicate zeros '0' ++ digits, c.isDigit = true := by
    simp only [List.forall_mem_append]
    exact ⟨fun c => isDigit_of_mem_zeros, hdigits⟩
  refine ⟨⟨['0'], List.replicate zeros '0' ++ digits, none, by simp, by simp, hfraction⟩, ?_, ?_⟩
  · simp [Spelling.text, Spelling.mantissa, hne]
  · have hzero : naturalOfDigits ['0'] = 0 := rfl
    simp only [Spelling.value, naturalOfDigits_append, naturalOfDigits_zeros, hzero]
    simp

/-- All digits in front of the point. -/
theorem exists_spelling_whole (zeros : Nat) :
    ∃ s : Spelling, s.text = digits ++ List.replicate zeros '0' ++ ['.', '0'] ∧
      s.value = naturalOfDigits digits * 10 ^ zeros := by
  have hwhole : ∀ c ∈ digits ++ List.replicate zeros '0', c.isDigit = true := by
    simp only [List.forall_mem_append]
    exact ⟨hdigits, fun c => isDigit_of_mem_zeros⟩
  refine ⟨⟨digits ++ List.replicate zeros '0', ['0'], none, by simp [hne], hwhole, by simp⟩, ?_, ?_⟩
  · simp [Spelling.text, Spelling.mantissa]
  · have hzero : naturalOfDigits ['0'] = 0 := rfl
    simp only [Spelling.value, naturalOfDigits_append, naturalOfDigits_zeros, hzero,
      List.length_replicate, List.length_singleton, Option.getD_none, add_zero]
    push_cast
    rw [zpow_neg_one]
    ring

/-- The point among the digits. -/
theorem exists_spelling_among {n : Nat} (hpos : 0 < n) (hlt : n < digits.length) :
    ∃ s : Spelling, s.text = digits.take n ++ '.' :: digits.drop n ∧
      s.value = naturalOfDigits digits * 10 ^ (n - digits.length : Int) := by
  have hwhole : ∀ c ∈ digits.take n, c.isDigit = true := fun c hmem =>
    hdigits c (List.mem_of_mem_take hmem)
  have hfraction : ∀ c ∈ digits.drop n, c.isDigit = true := fun c hmem =>
    hdigits c (List.mem_of_mem_drop hmem)
  refine ⟨⟨digits.take n, digits.drop n, none, ?_, hwhole, hfraction⟩, ?_, ?_⟩
  · simp [hne, hpos.ne']
  · simp [Spelling.text, Spelling.mantissa, hlt]
  · simp [Spelling.value, hlt.le]

omit hne in
/-- The point behind the first digit, and an exponent mark. -/
theorem exists_spelling_marked {first : Char} {rest : List Char} (heq : digits = first :: rest)
    (k : Int) :
    ∃ s : Spelling,
      s.text = first :: ((if rest = [] then [] else '.' :: rest) ++ exponentMark k) ∧
        s.value = naturalOfDigits digits * 10 ^ (k + 1 - digits.length) := by
  subst heq
  simp only [List.forall_mem_cons] at hdigits
  refine ⟨⟨[first], rest, some k, by simp, by simpa using hdigits.1, hdigits.2⟩, ?_, ?_⟩
  · simp [Spelling.text, Spelling.mantissa]
  · simp [Spelling.value]

omit hdigits hne in
/-- The text of a decimal spells it. -/
theorem exists_spelling_layout (x : Decimal) :
    ∃ s : Spelling, (Style.source.layout x).toList = s.text ∧ s.value = x.value := by
  obtain ⟨digits, hdigits⟩ : ∃ digits, digits = decimalDigits x.digits := ⟨_, rfl⟩
  have hisDigit : ∀ c ∈ digits, c.isDigit = true := fun c hmem =>
    isDigit_of_mem_decimalDigits (hdigits ▸ hmem)
  have hne : digits ≠ [] := hdigits ▸ Nat.toDigits_ne_nil
  have hvalue : x.value = naturalOfDigits digits * 10 ^ x.exponent := by
    rw [hdigits, naturalOfDigits_decimalDigits, Decimal.value]
  rw [hvalue]
  simp only [Style.layout, ← hdigits]
  split_ifs with hpositional hsmall hwhole
  · obtain ⟨s, htext, hs⟩ :=
      exists_spelling_small hisDigit hne (-(digits.length + x.exponent)).toNat
    refine ⟨s, by simp [htext], ?_⟩
    rw [hs]
    congr 2
    omega
  · obtain ⟨s, htext, hs⟩ := exists_spelling_whole hisDigit hne
      ((digits.length + x.exponent).toNat - digits.length)
    refine ⟨s, by simp [htext, Style.source], ?_⟩
    rw [hs, ← zpow_natCast]
    congr 2
    omega
  · obtain ⟨s, htext, hs⟩ := exists_spelling_among hisDigit hne
      (n := (digits.length + x.exponent).toNat) (by omega) (by omega)
    refine ⟨s, by simp [htext], ?_⟩
    rw [hs]
    congr 2
    omega
  · obtain ⟨first, rest, heq⟩ := List.exists_cons_of_ne_nil hne
    obtain ⟨s, htext, hs⟩ := exists_spelling_marked hisDigit heq (digits.length + x.exponent - 1)
    refine ⟨s, ?_, ?_⟩
    · rw [htext, heq]
      cases rest <;> simp
    · rw [hs]
      congr 2
      omega

end Layout

/-! ## The text of a double -/

/-- The number is the one that a text of the double spells: it rounds to the double, which has no
minus. -/
inductive ReadsAs (v : ℚ) (x : Float) : Prop where
  | zero (hx : x.toModel.unpack = .zero .positive) (hv : v = 0)
  | positive {m : Nat} {e : Int} {hm : 0 < m} (hx : x.toModel.unpack = .finite .positive m e hm)
      (h : RoundsTo v m e)

section Double

variable {v w : ℚ} {x y : Float} {n : Nat}

/-- A number is read as one double only. -/
theorem ReadsAs.unique (hx : ReadsAs v x) (hy : ReadsAs v y) : x = y := by
  apply eq_of_unpack_eq
  cases hx with
  | zero hx hv =>
    cases hy with
    | zero hy _ => rw [hx, hy]
    | @positive m e hm hy h => exact absurd (h.pos hm) (by simp [hv])
  | @positive m e hm hx h =>
    cases hy with
    | zero hy hv => exact absurd (h.pos hm) (by simp [hv])
    | @positive m' e' hm' hy h' =>
      obtain ⟨rfl, rfl⟩ := h.unique h' (isDouble_of_unpack hx) (isDouble_of_unpack hy)
      rw [hx, hy]

/-- A natural number is read as the double nearest to it. -/
theorem ReadsAs.ofNat_eq (h : ReadsAs n x) : ofNat n = x := by
  cases h with
  | zero hx hv =>
    obtain rfl : n = 0 := by exact_mod_cast hv
    exact ofNat_zero_eq hx
  | positive hx h => exact ofNat_eq_of_roundsTo hx h

/-- The text of a double spells a number that is read as the double. -/
theorem ReadsAs.exists_spelling (h : ReadsAs v x) :
    ∃ s : Spelling, (Style.source.render x).toList = s.text ∧ ReadsAs s.value x := by
  cases h with
  | zero hx _ =>
    obtain ⟨s, htext, hs⟩ := @exists_spelling_whole ['0'] (by simp) (by simp) 0
    refine ⟨s, ?_, .zero hx ?_⟩
    · rw [htext, Style.render, hx]
      rfl
    · rw [hs]
      simp [naturalOfDigits]
  | @positive m e hm hx _ =>
    obtain ⟨s, htext, hs⟩ := exists_spelling_layout (shortest m e)
    refine ⟨s, ?_, .positive hx (hs ▸ roundsTo_shortest hm e)⟩
    rw [← htext, Style.render, hx]
    simp [signText]

/-- No two doubles have the same text. -/
theorem ReadsAs.eq_of_render_eq (hx : ReadsAs v x) (hy : ReadsAs w y)
    (h : Style.source.render x = Style.source.render y) : x = y := by
  obtain ⟨s, htext, hs⟩ := hx.exists_spelling
  obtain ⟨s', htext', hs'⟩ := hy.exists_spelling
  have hvalue : s.value = s'.value := by
    rw [← s.valueOf_text, ← s'.valueOf_text, ← htext, ← htext', h]
  exact hs.unique (hvalue ▸ hs')

/-- A natural number that is not too great becomes a double that can be read. -/
theorem exists_readsAs_ofNat (hfinite : (ofNat n).isFinite = true) : ∃ v, ReadsAs v (ofNat n) := by
  have hsign {sign : Sign} (hx : (ofNat n).toModel.unpack = .zero sign ∨
      ∃ m e hm, (ofNat n).toModel.unpack = .finite sign m e hm) : sign = .positive := by
    rw [sign_of_unpack hx, unpackSign_ofNat]
    rfl
  rw [Float.isFinite, Float.Model.isFinite] at hfinite
  cases hx : (ofNat n).toModel.unpack with
  | notANumber => simp [hx, UnpackedFloat.isFinite] at hfinite
  | infinity sign => simp [hx, UnpackedFloat.isFinite] at hfinite
  | zero sign =>
    obtain rfl := hsign (.inl hx)
    exact ⟨0, .zero hx rfl⟩
  | finite sign m e hm =>
    obtain rfl := hsign (.inr ⟨m, e, hm, hx⟩)
    exact ⟨m * 2 ^ e, .positive hx (roundsTo_self hm e)⟩

/-- A double is finite and has no minus if digits and `.0` make its text. -/
theorem exists_readsAs_of_render {digits : List Char} (hdigits : ∀ c ∈ digits, c.isDigit = true)
    (h : (Style.source.render x).toList = digits ++ ['.', '0']) : ∃ v, ReadsAs v x := by
  have hminus : ∀ rest, '-' :: rest ≠ digits ++ ['.', '0'] := by
    rintro rest heq
    cases digits with
    | nil => simp at heq
    | cons c digits =>
      obtain rfl : '-' = c := by simpa using congrArg List.head? heq
      exact absurd (hdigits '-' (by simp)) (by decide)
  have hlast : ∀ text : List Char, text.getLast? ≠ some '0' → text ≠ digits ++ ['.', '0'] := by
    rintro text hne rfl
    simp at hne
  unfold Style.render at h
  cases hx : x.toModel.unpack with
  | notANumber => exact absurd h (by rw [hx]; exact hlast _ (by decide))
  | infinity sign => exact absurd h (by rw [hx]; cases sign <;> exact hlast _ (by decide))
  | zero sign =>
    cases sign with
    | positive => exact ⟨0, .zero hx rfl⟩
    | negative => exact absurd h (by rw [hx]; exact hminus _)
  | finite sign m e hm =>
    cases sign with
    | positive => exact ⟨m * 2 ^ e, .positive hx (roundsTo_self hm e)⟩
    | negative =>
      refine absurd h ?_
      rw [hx, String.toList_append]
      exact hminus _

/-- A double whose text is made of digits and `.0` is read from these digits. -/
theorem ofNumeral_of_render {digits : List Char} (hdigits : ∀ c ∈ digits, c.isDigit = true)
    (h : Style.source.render x = String.ofList digits ++ ".0") :
    digits ≠ [] ∧ ofNumeral (String.ofList digits) = x := by
  have htext : (Style.source.render x).toList = digits ++ ['.', '0'] := by simp [h]
  obtain ⟨v, hreads⟩ := exists_readsAs_of_render hdigits htext
  obtain ⟨s, hs, hreads⟩ := hreads.exists_spelling
  have hne : digits ≠ [] := by
    rintro rfl
    obtain ⟨c, rest, hcons, hdigit⟩ := s.exists_text_eq_cons
    rw [← hs, htext] at hcons
    obtain rfl : '.' = c := by simpa using congrArg List.head? hcons
    exact absurd hdigit (by decide)
  obtain ⟨s', hs', hvalue⟩ := exists_spelling_whole hdigits hne 0
  have hsame : s.value = naturalOfDigits digits := by
    rw [← s.valueOf_text, ← hs, htext]
    simpa [← s'.valueOf_text, hs'] using hvalue
  refine ⟨hne, ?_⟩
  rw [ofNumeral, String.toList_ofList]
  exact ReadsAs.ofNat_eq (hsame ▸ hreads)

end Double

end ScriptKit.Number
