import ScriptKit.Proofs.ListingRoundTrip
import ScriptKit.Proofs.Sequence

/-!
# Whole numbers are printed as they are written

A natural number up to `2^53` is a double exactly. One of the decimals that round to this double is
the number itself, with exponent zero, so the search for the shortest decimal ends at a power of ten
that is no fraction. There it can only find the number, without the zeros at its end, and these are
written again since no more than sixteen digits are needed. So a program that prints a numeral, or a
variable that was defined by it, prints the number without the zeros in front.
-/

set_option autoImplicit false

namespace ScriptKit

namespace Number

open Float.Model Float.Model.UnpackedFloat

/-! ## The shortest decimal of a whole number -/

section Shortest

variable {m n d : Nat} {e k : Int}

/-- A decimal that is equal to the double reads back. -/
theorem readsBack_of_eq (hm : 0 < m) (h : d * (scales e k).1 = 4 * m * (scales e k).2) :
    readsBack m e k d = true := by
  have hscale := (scales_eq e k).2
  have hlow := Nat.mul_lt_mul_of_pos_right (low_roundingInterval_lt hm e) hscale
  have hhigh : 4 * m * (scales e k).2 < (roundingInterval m e).2 * (scales e k).2 := by
    rw [high_roundingInterval]
    exact Nat.mul_lt_mul_of_pos_right (by omega) hscale
  simp only [readsBack, h]
  split_ifs
  · simp [hlow.le, hhigh.le]
  · simp [hlow, hhigh]

/-- So there is a multiple of the power of ten that reads back. -/
theorem isSome_nearestOnGrid_of_eq (hm : 0 < m)
    (h : d * (scales e k).1 = 4 * m * (scales e k).2) : (nearestOnGrid m e k).isSome = true := by
  have hscale := (scales_eq e k).2
  have hpos : 0 < (scales e k).1 := by
    apply Nat.pos_of_mul_pos_left (a := d)
    rw [h]
    positivity
  have hdiv : 4 * m * (scales e k).2 / (scales e k).1 = d := by
    rw [← h, Nat.mul_div_cancel d hpos]
  simp only [nearestOnGrid, hdiv, readsBack_of_eq hm h]
  cases readsBack m e k (d + 1)
  · rfl
  · dsimp only
    split_ifs <;> rfl

/-- The search does not go past ones if they can be used. -/
theorem exists_searchGrids (h : (nearestOnGrid m e 0).isSome = true) {rounds k : Nat}
    (hlt : k < rounds) : ∃ d k' : Nat, searchGrids m e rounds k = some ⟨d, k'⟩ := by
  induction rounds generalizing k with
  | zero => exact absurd hlt k.not_lt_zero
  | succ rounds ih =>
    rw [searchGrids]
    cases hgrid : nearestOnGrid m e k with
    | some d => exact ⟨d, k, rfl⟩
    | none =>
      cases k with
      | zero =>
        rw [Nat.cast_zero] at hgrid
        simp [hgrid] at h
      | succ k =>
        rw [Nat.cast_succ, add_sub_cancel_right]
        exact ih (by omega)

/-- The scales for a power of two that is at most one and a power of ten that is at least one. -/
theorem scales_neg (j k : Nat) : scales (-j) k = (10 ^ k * 2 ^ (j + 2), 1) := by
  have hleft : (2 - -(j : Int)).toNat = j + 2 := by omega
  have hright : (-(j : Int) - 2).toNat = 0 := by omega
  have hnegative : (-(k : Int)).toNat = 0 := by omega
  simp only [scales, hleft, hright, hnegative, Int.toNat_natCast, Nat.shiftLeft_eq]
  rfl

/-- Of whole numbers, only the same one is at most half a unit away. -/
theorem eq_of_near {found unit : Nat} (hunit : 0 < unit)
    (hbelow : 4 * (n * unit) - 2 ≤ found * (4 * unit))
    (habove : found * (4 * unit) ≤ 4 * (n * unit) + 2) : found = n := by
  have hfound : found * (4 * unit) = 4 * (found * unit) := by ring
  rcases Nat.lt_trichotomy found n with hlt | heq | hgt
  · have hmul : (found + 1) * unit ≤ n * unit := Nat.mul_le_mul_right unit hlt
    rw [Nat.succ_mul] at hmul
    omega
  · exact heq
  · have hmul : (n + 1) * unit ≤ found * unit := Nat.mul_le_mul_right unit hgt
    rw [Nat.succ_mul] at hmul
    omega

/-- The shortest decimal of a whole number, as a double with a smaller exponent, is the number. -/
theorem exists_shortest_eq (hn : 0 < n) (hlog : n.log2 ≤ 52) (j : Nat) :
    ∃ d k : Nat, shortest (n * 2 ^ j) (-j) = ⟨d, k⟩ ∧ d * 10 ^ k = n := by
  have hm : 0 < n * 2 ^ j := by positivity
  have hones : n * (scales (-j) (0 : Nat)).1 = 4 * (n * 2 ^ j) * (scales (-j) (0 : Nat)).2 := by
    rw [scales_neg]
    ring
  obtain ⟨first, hfirst, hlt⟩ :
      ∃ first : Nat, gridAbove (n * 2 ^ j) (-j) = first ∧ first < 20 := by
    refine ⟨(n.log2 + 1) * 30103 / 100000 + 1, ?_, by omega⟩
    rw [gridAbove, log2_mul_two_pow hn.ne']
    push_cast
    omega
  obtain ⟨d, k, hsearch⟩ := exists_searchGrids (isSome_nearestOnGrid_of_eq hm hones) hlt
  refine ⟨d, k, by rw [shortest, hfirst, hsearch, Option.getD_some], ?_⟩
  -- Both numbers are whole, and half of a unit at most is between them.
  have hrounds := roundsTo_of_readsBack (readsBack_of_searchGrids hsearch)
  have hbelow := (mul_scales_le_iff _).1.mpr hrounds.low_le
  have habove := (mul_scales_le_iff _).2.mpr hrounds.le_high
  have hlow : 4 * (n * 2 ^ j) - 2 ≤ (roundingInterval (n * 2 ^ j) (-j)).1 := by
    rw [low_roundingInterval]
    split_ifs <;> omega
  rw [scales_neg, mul_one, ← mul_assoc] at hbelow habove
  rw [high_roundingInterval] at habove
  have hunit : 2 ^ (j + 2) = 4 * 2 ^ j := by ring
  rw [hunit] at hbelow habove
  exact eq_of_near (by positivity) (hlow.trans hbelow) habove

end Shortest

/-! ## The text of a whole number -/

section Printed

variable {n d : Nat}

/-- Zeros behind the digits of a number make the digits of its multiple. -/
theorem decimalDigits_append_zeros (hd : 0 < d) (k : Nat) :
    decimalDigits d ++ List.replicate k '0' = decimalDigits (d * 10 ^ k) := by
  induction k with
  | zero => simp
  | succ k ih =>
    have hzero : ['0'] = Nat.toDigits 10 0 := rfl
    have hpos : 0 < d * 10 ^ k := by positivity
    rw [List.replicate_succ', ← List.append_assoc, ih, hzero, decimalDigits,
      Nat.toDigits_append_toDigits (by decide) hpos (by decide), decimalDigits]
    congr 1
    ring

/-- A whole number of at most sixteen digits is printed with its digits only. -/
theorem layout_printed (hd : 0 < d) (k : Nat) (hlt : d * 10 ^ k < 10 ^ 16) :
    Style.printed.layout ⟨d, k⟩ = toString (d * 10 ^ k) := by
  have hzeros := decimalDigits_append_zeros hd k
  have hlength : (decimalDigits d).length + k ≤ 16 := by
    have hle := (Nat.length_toDigits_le_iff (by decide) (by decide)).mpr hlt
    rw [← decimalDigits, ← hzeros] at hle
    simpa using hle
  have hpos : 0 < (decimalDigits d).length := Nat.length_toDigits_pos
  have hmissing :
      ((decimalDigits d).length + (k : Int)).toNat - (decimalDigits d).length = k := by omega
  simp only [Style.layout, Style.printed, hmissing]
  rw [if_pos (by omega), if_neg (by omega), if_pos (by omega), hzeros, String.append_empty,
    Nat.toString_eq_ofList_toDigits, decimalDigits]

/-- A whole number of at most 53 bits is a double exactly. -/
theorem exists_unpack_ofNat (hn : 0 < n) (hlog : n.log2 ≤ 52) :
    ∃ (j : Nat) (hm : 0 < n * 2 ^ j),
      (ofNat n).toModel.unpack = .finite .positive (n * 2 ^ j) (-j) hm := by
  obtain ⟨m, e, hm, hround, hdouble, hle, hvalue⟩ :=
    exists_round_exact .positive hn (e := 0) (by decide) hlog
  obtain ⟨j, hj⟩ := Int.eq_ofNat_of_zero_le (a := -e) (by omega)
  obtain rfl : e = -j := by omega
  obtain rfl : m = n * 2 ^ j := by
    rw [zpow_zero, mul_one, zpow_neg, zpow_natCast] at hvalue
    have hmantissa : (m : ℚ) = n * 2 ^ j := by
      rw [hvalue]
      field_simp
    exact_mod_cast hmantissa
  refine ⟨j, hm, ?_⟩
  rw [ofNat, Float.Model.ofNat, unpacked_ofNat hn, hround]
  exact unpack_pack .positive hdouble (hle.trans (by decide))

/-- A natural number up to `2^53` is printed with its digits. -/
theorem render_printed_ofNat (hn : n ≤ 2 ^ 53) : Style.printed.render (ofNat n) = toString n := by
  rcases Nat.eq_zero_or_pos n with rfl | hpos
  · decide +kernel
  rcases hn.eq_or_lt with rfl | hlt
  · -- The one number with more than 53 bits.
    decide +kernel
  have hlog : n.log2 ≤ 52 := Nat.lt_succ_iff.mp ((Nat.log2_lt hpos.ne').mpr hlt)
  obtain ⟨j, hm, hunpack⟩ := exists_unpack_ofNat hpos hlog
  obtain ⟨d, k, hshortest, hvalue⟩ := exists_shortest_eq hpos hlog j
  have hd : 0 < d := Nat.pos_of_mul_pos_right (hvalue ▸ hpos)
  rw [Style.render, hunpack]
  dsimp only
  rw [signText, String.empty_append, hshortest, layout_printed hd k (by omega), hvalue]

end Printed

/-! ## Numerals -/

section Numerals

/-- A numeral for the number, with so many zeros in front. -/
def numeral (zeros n : Nat) : String := String.ofList (List.replicate zeros '0') ++ toString n

/-- The characters of a numeral are its zeros and the digits of the number. -/
theorem toList_numeral (zeros n : Nat) :
    (numeral zeros n).toList = List.replicate zeros '0' ++ decimalDigits n := by
  rw [numeral, String.toList_append, String.toList_ofList, Nat.toString_eq_repr, Nat.toList_repr,
    decimalDigits]

/-- The zeros in front make no difference to what a numeral denotes. -/
theorem ofNumeral_numeral (zeros n : Nat) : ofNumeral (numeral zeros n) = ofNat n := by
  rw [ofNumeral, toList_numeral, naturalOfDigits_append, naturalOfDigits_zeros,
    naturalOfDigits_decimalDigits, mul_zero, zero_add]

/-- A numeral is one lexeme. -/
theorem ofLexeme?_numeral (zeros n : Nat) :
    Token.Kind.ofLexeme? (numeral zeros n).toList = some .number := by
  have hdigits : ∀ c ∈ (numeral zeros n).toList, c.isDigit = true := by
    rw [toList_numeral, List.forall_mem_append]
    exact ⟨fun _ => isDigit_of_mem_zeros, fun _ => isDigit_of_mem_decimalDigits⟩
  have hne : (numeral zeros n).toList ≠ [] := by
    rw [toList_numeral]
    exact List.append_ne_nil_of_right_ne_nil _ Nat.toDigits_ne_nil
  exact Node.ofLexeme?_digits hdigits hne

end Numerals

end Number

/-! ## Programs -/

namespace Grammar.IsPrimary

variable {levels : Nat} {tokens : List Token} {node : Node}

/-- A primary can be printed. -/
theorem exists_print (h : IsPrimary levels tokens node) :
    ∃ d : Derivation .declaration, d.FitsIn levels ∧
      d.tokens = tokenOf .printWord "print" :: (tokens ++ [tokenOf .semicolon ";"]) ∧
      d.tree = .print node (some 1) := by
  obtain ⟨d, hfits, rfl, rfl⟩ := h.exists_expression
  exact ⟨.statement (.print ⟨tokenOf .printWord "print", rfl⟩ d ⟨tokenOf .semicolon ";", rfl⟩),
    Derivation.fitsIn_statement.mpr (Derivation.fitsIn_print.mpr hfits), by simp, rfl⟩

/-- A variable can be defined by a primary. -/
theorem exists_define (name : String) (h : IsPrimary levels tokens node) :
    ∃ d : Derivation .declaration, d.FitsIn levels ∧
      d.tokens = tokenOf .varWord "var" :: tokenOf .name name :: tokenOf .assign "=" ::
        (tokens ++ [tokenOf .semicolon ";"]) ∧
      d.tree = .define name node (some 1) := by
  obtain ⟨d, hfits, rfl, rfl⟩ := h.exists_expression
  exact ⟨.define ⟨tokenOf .varWord "var", rfl⟩ ⟨tokenOf .name name, rfl⟩
    ⟨tokenOf .assign "=", rfl⟩ d ⟨tokenOf .semicolon ";", rfl⟩,
    Derivation.fitsIn_define.mpr hfits, by simp, rfl⟩

end Grammar.IsPrimary

namespace Node

open Grammar Token

variable {fuel : Nat} {room inner : Headroom} {machine : Machine} {node : Node} {value : Value}
  {vars : Variables} {line : SourceLine}

/-- A variable has the value to which it is bound. -/
theorem outcome_eval_reference {name : String} (hroom : room.enter? = some inner)
    (h : vars[name]? = some value) :
    Eval.outcome ((reference name line).eval room) vars = (.ok value, vars) := by
  rw [eval, hroom]
  dsimp only
  rw [Eval.outcome_get_bind, h]
  rfl

/-- A statement that prints a value adds one line. -/
theorem outcome_execAll_print (hroom : room.enter? = some inner)
    (h : Eval.outcome (node.eval inner) machine.vars = (.ok value, vars)) :
    Exec.outcome (execAll (fuel + 1) room [.print node line]) machine =
      some (.ok (), ⟨vars, machine.printed.push value.text⟩) := by
  rw [execAll, Exec.forAll, Exec.outcome_bind, exec, hroom]
  dsimp only
  rw [Exec.outcome_bind, Exec.outcome_ofEval, h]
  rfl

/-- A statement that defines a variable binds it. -/
theorem outcome_execAll_define {name : String} (hroom : room.enter? = some inner)
    (h : Eval.outcome (node.eval inner) machine.vars = (.ok value, vars)) :
    Exec.outcome (execAll (fuel + 1) room [.define name node line]) machine =
      some (.ok (), ⟨vars.insert name value, machine.printed⟩) := by
  rw [execAll, Exec.forAll, Exec.outcome_bind, exec, hroom]
  dsimp only
  rw [Exec.outcome_bind, Exec.outcome_ofEval, h]
  rfl

/-- A text without points, with a semicolon behind it. -/
theorem Scans.ofText_of_not_mem {text : List Char} {tokens : List Token} (h : Scans text tokens)
    (hpoint : '.' ∉ text) :
    TokenList.ofText (String.ofList text ++ ";") = .ok ⟨tokens ++ [tokenOf .semicolon ";"], 1⟩ := by
  have hread := h.ofText
  rwa [withoutWholeMarks_of_not_mem hpoint] at hread

/-- A numeral is scanned as one token. -/
theorem scans_numeral (zeros n : Nat) :
    Scans (Number.numeral zeros n).toList [tokenOf .number (Number.numeral zeros n)] := by
  simpa using scans_lexeme (Number.ofLexeme?_numeral zeros n)

/-- The tokens of a text that prints a numeral. -/
theorem ofText_print_numeral (zeros n : Nat) :
    TokenList.ofText ("print " ++ Number.numeral zeros n ++ ";") =
      .ok ⟨[tokenOf .printWord "print", tokenOf .number (Number.numeral zeros n),
        tokenOf .semicolon ";"], 1⟩ := by
  have hprint : Scans "print".toList [tokenOf .printWord "print"] := scans_lexeme (by decide)
  have hpoint := point_not_mem (Number.ofLexeme?_numeral zeros n)
  have htext : "print " ++ Number.numeral zeros n =
      String.ofList ("print".toList ++ ' ' :: (Number.numeral zeros n).toList) := by
    rw [← String.toList_inj]
    simp
  rw [htext]
  exact (hprint.append (by decide) (scans_numeral zeros n).blank).ofText_of_not_mem
    (by simp [hpoint])

/-- The tokens of a text that prints a variable with a numeral for its value. -/
theorem ofText_define_numeral (zeros n : Nat) :
    TokenList.ofText ("var x = " ++ Number.numeral zeros n ++ "; print x;") =
      .ok ⟨[tokenOf .varWord "var", tokenOf .name "x", tokenOf .assign "=",
        tokenOf .number (Number.numeral zeros n), tokenOf .semicolon ";",
        tokenOf .printWord "print", tokenOf .name "x", tokenOf .semicolon ";"], 1⟩ := by
  have hvar : Scans "var".toList [tokenOf .varWord "var"] := scans_lexeme (by decide)
  have hname : Scans "x".toList [tokenOf .name "x"] := scans_lexeme (by decide)
  have hmark : Scans "=".toList [tokenOf .assign "="] := scans_lexeme (by decide)
  have hsemicolon : Scans ";".toList [tokenOf .semicolon ";"] := scans_lexeme (by decide)
  have hprint : Scans "print".toList [tokenOf .printWord "print"] := scans_lexeme (by decide)
  have hpoint := point_not_mem (Number.ofLexeme?_numeral zeros n)
  have htext : "var x = " ++ Number.numeral zeros n ++ "; print x;" =
      String.ofList ("var".toList ++ ' ' :: ("x".toList ++ ' ' :: ("=".toList ++ ' ' ::
        ((Number.numeral zeros n).toList ++ ';' :: ' ' :: ("print".toList ++ ' ' ::
          "x".toList))))) ++ ";" := by
    rw [← String.toList_inj]
    simp
  have hsecond : Scans (';' :: ' ' :: ("print".toList ++ ' ' :: "x".toList))
      [tokenOf .semicolon ";", tokenOf .printWord "print", tokenOf .name "x"] :=
    hsemicolon.append (by decide) (hprint.append (by decide) hname.blank).blank
  have hfirst := (scans_numeral zeros n).append (by decide) hsecond
  rw [htext]
  exact (hvar.append (by decide) (hname.append (by decide)
    (hmark.append (by decide) hfirst.blank).blank).blank).ofText_of_not_mem (by simp [hpoint])

end Node

namespace Session

open Grammar

/-- A text that the grammar derives runs as its statements do. -/
theorem runText_of_derivation {session : Session} {fuel : Nat} {text : String} {tokens : TokenList}
    {d : Derivation .declarations} {machine : Machine} (file : Option String)
    (htext : TokenList.ofText text = .ok tokens) (hfits : d.FitsIn maxNesting)
    (htokens : d.tokens = tokens.tokens)
    (hrun : Exec.outcome (Node.execAll fuel session.room d.tree) ⟨session.vars, #[]⟩ =
      some (.ok (), machine)) :
    session.runText fuel file text false =
      some ⟨{ session with vars := machine.vars }, "", machine.printed.toList, [], true⟩ := by
  obtain ⟨hstatements, herrors⟩ := Program.ofTokens_of_derivation hfits file htokens
  rw [runText_of_ofText htext, hstatements, hrun, herrors]
  rfl

/-- A natural number up to `2^53` is printed with its digits, however many zeros stand in front of
it in the text of the program, and whether it is printed directly or is the value of a variable. The
session may be any that has room for an expression in a statement. -/
theorem numeral_printed_without_zeros (session : Session)
    (hroom : (Headroom.levels 2).Within session.room) (file : Option String)
    (fuel zeros : Nat) {n : Nat} (hn : n ≤ 2 ^ 53) :
    (∃ run, session.runText (fuel + 1) file ("print " ++ Number.numeral zeros n ++ ";") false =
        some run ∧ run.ok = true ∧ run.out = toString n ++ "\n" ∧ run.err = "" ∧
      run.session = session) ∧
    ∃ run, session.runText (fuel + 1) file
        ("var x = " ++ Number.numeral zeros n ++ "; print x;") false = some run ∧
      run.ok = true ∧ run.out = toString n ++ "\n" ∧ run.err = "" ∧
      run.session = session.store "x" (.number (Number.ofNat n)) := by
  have htext : (Value.number (Number.ofNat n)).text = toString n :=
    Number.render_printed_ofNat hn
  have hliteral := (IsPrimary.literal (Number.numeral zeros n)).mono (Nat.zero_le maxNesting)
  rw [Number.ofNumeral_numeral] at hliteral
  have hempty : (Derivation.empty).FitsIn maxNesting := Derivation.fitsIn_leaf rfl rfl rfl
  obtain ⟨printed, hprinted, hprintedTokens, hprintedTree⟩ := hliteral.exists_print
  obtain ⟨defined, hdefined, hdefinedTokens, hdefinedTree⟩ := hliteral.exists_define "x"
  obtain ⟨shown, hshown, hshownTokens, hshownTree⟩ :=
    ((IsPrimary.reference "x").mono (Nat.zero_le maxNesting)).exists_print
  -- One level for the statement, and one for the expression in it.
  obtain ⟨inner, henter, hinner⟩ := hroom.enter rfl
  obtain ⟨last, henter', -⟩ := hinner.enter rfl
  have hvalue (vars : Variables) (line : SourceLine) :
      Eval.outcome ((Node.literal (.number (Number.ofNat n)) line).eval inner) vars =
        (.ok (.number (Number.ofNat n)), vars) := by
    rw [Node.eval, henter']
    rfl
  constructor
  · have hexec : Exec.outcome
        (Node.execAll (fuel + 1) session.room (Derivation.next printed .empty).tree)
        ⟨session.vars, #[]⟩ = some (.ok (), ⟨session.vars, #[toString n]⟩) := by
      rw [Derivation.tree, hprintedTree, ← htext]
      exact Node.outcome_execAll_print henter (hvalue _ _)
    have hrun := runText_of_derivation file (Node.ofText_print_numeral zeros n)
      (Derivation.fitsIn_next.mpr ⟨hprinted, hempty⟩) (by simp [hprintedTokens]) hexec
    exact ⟨_, hrun, rfl, by simp [Run.out], rfl, rfl⟩
  · have hexec : Exec.outcome
        (Node.execAll (fuel + 1) session.room
          (Derivation.next defined (.next shown .empty)).tree)
        ⟨session.vars, #[]⟩ =
          some (.ok (), ⟨session.vars.insert "x" (.number (Number.ofNat n)), #[toString n]⟩) := by
      rw [Derivation.tree, Derivation.tree, hdefinedTree, hshownTree, ← htext,
        ← List.singleton_append,
        Node.outcome_execAll_append (Node.outcome_execAll_define henter (hvalue _ _))]
      exact Node.outcome_execAll_print henter
        (Node.outcome_eval_reference henter' Std.TreeMap.getElem?_insert_self)
    have hrun := runText_of_derivation file (Node.ofText_define_numeral zeros n)
      (Derivation.fitsIn_next.mpr ⟨hdefined, Derivation.fitsIn_next.mpr ⟨hshown, hempty⟩⟩)
      (by simp [hdefinedTokens, hshownTokens]) hexec
    exact ⟨_, hrun, rfl, by simp [Run.out], rfl, rfl⟩

/-- A number of sixteen digits that ends in a zero, with three zeros in front of it. -/
theorem numeral_printed_without_zeros_long :
    (Headroom.levels 2).Within .standard ∧ 9007199254740990 ≤ 2 ^ 53 ∧
      ((∃ run, (fresh .standard none).runText 1 none
          ("print " ++ Number.numeral 3 9007199254740990 ++ ";") false = some run ∧
        run.ok = true ∧ run.out = toString 9007199254740990 ++ "\n" ∧ run.err = "" ∧
        run.session = fresh .standard none) ∧
      ∃ run, (fresh .standard none).runText 1 none
          ("var x = " ++ Number.numeral 3 9007199254740990 ++ "; print x;") false = some run ∧
        run.ok = true ∧ run.out = toString 9007199254740990 ++ "\n" ∧ run.err = "" ∧
        run.session =
          (fresh .standard none).store "x" (.number (Number.ofNat 9007199254740990))) :=
  ⟨.levels (by decide), by decide, numeral_printed_without_zeros (fresh .standard none)
    (.levels (by decide)) none 0 3 (by decide)⟩

end Session

end ScriptKit
