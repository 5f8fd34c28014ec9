import ScriptKit.Proofs.Derivation

/-!
# The grammar is unambiguous

Read from the left, a derivation is determined by its tokens: the first token of each part picks
the production, and what follows a part says whether it goes on. `Closes` is the condition on the
token behind a derivation under which the derivation is over there. Two derivations of one symbol
that are over, and in which every `else` belongs to the nearest `if`, cannot both begin the same
tokens without being equal.
-/

set_option autoImplicit false

namespace ScriptKit

/-- The row of the operator that tokens of this kind are. -/
def Token.Kind.row? : Token.Kind → Option Nat
  | .times | .divide | .modulo => some 0
  | .plus | .minus => some 1
  | .less | .greater => some 2
  | .equal => some 3
  | _ => none

/-- Does a token of this kind begin a primary? -/
def Token.Kind.opensPrimary : Token.Kind → Bool
  | .number | .name | .openParen => true
  | _ => false

namespace Grammar

/-- An operator belongs to the row of its kind and to no other. -/
theorem row?_of_operatorAt? {row : Nat} {kind : Token.Kind} {op : Operator}
    (h : operatorAt? row kind = some op) : kind.row? = some row := by
  match row with
  | 0 | 1 | 2 | 3 => cases kind <;> first | rfl | cases h
  | _ + 4 => cases h

/-- A kind that is no operator is none of any row. -/
theorem operatorAt?_eq_none {kind : Token.Kind} (row : Nat) (h : kind.row? = none) :
    operatorAt? row kind = none := by
  cases hop : operatorAt? row kind with
  | none => rfl
  | some op =>
    rw [row?_of_operatorAt? hop] at h
    cases h

/-- Tokens of different kinds are different. -/
theorem Terminal.val_ne {kind kind' : Token.Kind} (token : Terminal kind) (token' : Terminal kind')
    (h : kind ≠ kind') : token.val ≠ token'.val := by
  intro heq
  apply h
  rw [← token.property, ← token'.property, heq]

/-- May the symbol derive no token at all? -/
def Symbol.mayBeEmpty : Symbol → Bool
  | .rest _ | .declarations => true
  | _ => false

/-- May the derivations of the symbol begin with a token of this kind? -/
def Symbol.beginsWith : Symbol → Token.Kind → Bool
  | .operand _, kind | .expression, kind => kind.opensPrimary
  | .statement, kind =>
    kind.opensPrimary || [.printWord, .ifWord, .whileWord, .openBrace].contains kind
  | .declaration, kind =>
    kind.opensPrimary || [.printWord, .ifWord, .whileWord, .openBrace, .varWord].contains kind
  | .rest _, _ | .declarations, _ => false

namespace Derivation

/-- A derivation begins with a token of which its symbol may begin, unless the symbol may derive
no token. -/
theorem exists_head {s : Symbol} (d : Derivation s) :
    s.mayBeEmpty = true ∨
      ∃ token rest, d.tokens = token :: rest ∧ s.beginsWith token.kind = true := by
  induction d with
  | literal token => exact .inr ⟨token, [], rfl, by rw [token.property]; rfl⟩
  | reference token => exact .inr ⟨token, [], rfl, by rw [token.property]; rfl⟩
  | group opening inner closing => exact .inr ⟨opening, _, rfl, by rw [opening.property]; rfl⟩
  | chain first more ihfirst =>
    obtain hempty | ⟨token, rest, htokens, hkind⟩ := ihfirst
    · cases hempty
    · exact .inr ⟨token, rest ++ more.tokens, by rw [tokens, htokens]; rfl, hkind⟩
  | done => exact .inl rfl
  | operation => exact .inl rfl
  | plain equality ih =>
    obtain hempty | ⟨token, rest, htokens, hkind⟩ := ih
    · cases hempty
    · exact .inr ⟨token, rest, htokens, hkind⟩
  | assign target mark value ihtarget =>
    obtain hempty | ⟨token, rest, htokens, hkind⟩ := ihtarget
    · cases hempty
    · exact .inr ⟨token, rest ++ mark.val :: value.tokens, by rw [tokens, htokens]; rfl, hkind⟩
  | print word => exact .inr ⟨word, _, rfl, by rw [word.property]; rfl⟩
  | ifThen word => exact .inr ⟨word, _, rfl, by rw [word.property]; rfl⟩
  | ifElse word => exact .inr ⟨word, _, rfl, by rw [word.property]; rfl⟩
  | loop word => exact .inr ⟨word, _, rfl, by rw [word.property]; rfl⟩
  | block opening => exact .inr ⟨opening, _, rfl, by rw [opening.property]; rfl⟩
  | evaluate value semicolon ih =>
    obtain hempty | ⟨token, rest, htokens, hkind⟩ := ih
    · cases hempty
    · refine .inr ⟨token, rest ++ [semicolon.val], by rw [tokens, htokens]; rfl, ?_⟩
      rw [Symbol.beginsWith, show token.kind.opensPrimary = true from hkind, Bool.true_or]
  | declare word => exact .inr ⟨word, _, rfl, by rw [word.property]; rfl⟩
  | define word => exact .inr ⟨word, _, rfl, by rw [word.property]; rfl⟩
  | statement inner ih =>
    obtain hempty | ⟨token, rest, htokens, hkind⟩ := ih
    · cases hempty
    · refine .inr ⟨token, rest, htokens, ?_⟩
      revert hkind
      cases token.kind <;> decide
  | empty => exact .inl rfl
  | next => exact .inl rfl

/-- An expression begins with a primary. -/
theorem exists_head_expression (d : Derivation .expression) :
    ∃ token rest, d.tokens = token :: rest ∧ token.kind.opensPrimary = true :=
  d.exists_head.resolve_left (by decide)

/-- The first token of a declaration. -/
theorem exists_head_declaration (d : Derivation .declaration) :
    ∃ token rest, d.tokens = token :: rest ∧
      Symbol.beginsWith .declaration token.kind = true :=
  d.exists_head.resolve_left (by decide)

/-- Where a token of this kind follows, or the end, the derivation is over. -/
def Closes {s : Symbol} (d : Derivation s) (following : Option Token.Kind) : Prop :=
  match s with
  | .operand row => ∀ r < row, following.bind (operatorAt? r) = none
  | .rest row => ∀ r ≤ row, following.bind (operatorAt? r) = none
  | .expression => (∀ r < 4, following.bind (operatorAt? r) = none) ∧ following ≠ some .assign
  | .statement | .declaration => d.endsOpen = true → following ≠ some .elseWord
  | .declarations => following = none ∨ following = some .closeBrace

/-- An expression is over where no operator and no assignment mark follows. -/
theorem closes_expression (d : Derivation .expression) {kind : Token.Kind}
    (hsign : kind.row? = none) (hmark : kind ≠ .assign) : d.Closes (some kind) :=
  ⟨fun r _ => operatorAt?_eq_none r hsign, by simpa using hmark⟩

/-- Operands are over where no operator follows. -/
theorem closes_operand {row : Nat} (d : Derivation (.operand row)) {kind : Token.Kind}
    (hsign : kind.row? = none) : d.Closes (some kind) :=
  fun r _ => operatorAt?_eq_none r hsign

/-- The operand of a row is over where the rest of the row begins, and behind an empty rest where
the row is over. -/
theorem closes_operand_rest {row : Nat} (d : Derivation (.operand row))
    (more : Derivation (.rest row)) {after : List Token}
    (h : ∀ r < row + 1, (headKind after).bind (operatorAt? r) = none) :
    d.Closes (headKind (more.tokens ++ after)) := by
  intro r hr
  cases more with
  | done => exact h r (by omega)
  | operation sign op hsign operand more =>
    simp only [tokens, List.cons_append, headKind_cons, Option.bind_some]
    cases hop : operatorAt? r sign.kind with
    | none => rfl
    | some op' =>
      have hrow := (row?_of_operatorAt? hop).symm.trans (row?_of_operatorAt? hsign)
      rw [Option.some.injEq] at hrow
      omega

/-- What follows the first declaration of a list never continues it. -/
theorem closes_declaration_next (d : Derivation .declaration) (more : Derivation .declarations)
    {after : List Token} (h : headKind after ≠ some .elseWord) :
    d.Closes (headKind (more.tokens ++ after)) := by
  intro _
  cases more with
  | empty => exact h
  | next first more =>
    obtain ⟨token, rest, htokens, hkind⟩ := first.exists_head_declaration
    simp only [tokens, htokens, List.cons_append, headKind_cons, ne_eq, Option.some.injEq]
    intro helse
    rw [helse] at hkind
    cases hkind

/-- No other derivation of the symbol begins the same tokens, if both are over where they end. -/
def Determined {s : Symbol} (d : Derivation s) : Prop :=
  ∀ (d' : Derivation s) {after after' : List Token}, d.bindsElses = true →
    d'.bindsElses = true → d.tokens ++ after = d'.tokens ++ after' →
    d.Closes (headKind after) → d'.Closes (headKind after') → d = d' ∧ after = after'

section Determined

variable {row : Nat}

/-- An expression with a token behind it that ends expressions is determined together with that
token. -/
theorem Determined.before_terminal {d d' : Derivation .expression} (h : Determined d)
    {kind : Token.Kind} {token token' : Terminal kind} {after after' : List Token}
    (hsign : kind.row? = none) (hmark : kind ≠ .assign) (helses : d.bindsElses = true)
    (helses' : d'.bindsElses = true)
    (htokens : d.tokens ++ token.val :: after = d'.tokens ++ token'.val :: after') :
    d = d' ∧ token = token' ∧ after = after' := by
  have hover : d.Closes (headKind (token.val :: after)) := by
    rw [headKind_cons, token.property]
    exact d.closes_expression hsign hmark
  have hover' : d'.Closes (headKind (token'.val :: after')) := by
    rw [headKind_cons, token'.property]
    exact d'.closes_expression hsign hmark
  obtain ⟨rfl, hrest⟩ := h d' helses helses' htokens hover hover'
  obtain ⟨htoken, hafter⟩ := List.cons.inj hrest
  exact ⟨rfl, Subtype.ext htoken, hafter⟩

/-- A numeral is no other primary. -/
theorem determined_literal (token : Terminal .number) : Determined (literal token) := by
  intro d' after after' _ _ htokens _ _
  cases d' with
  | literal token' =>
    obtain ⟨htoken, hafter⟩ := List.cons.inj htokens
    exact ⟨congrArg literal (Subtype.ext htoken), hafter⟩
  | reference token' => exact absurd (List.cons.inj htokens).1 (token.val_ne token' (by decide))
  | group opening' => exact absurd (List.cons.inj htokens).1 (token.val_ne opening' (by decide))

/-- A name is no other primary. -/
theorem determined_reference (token : Terminal .name) : Determined (reference token) := by
  intro d' after after' _ _ htokens _ _
  cases d' with
  | literal token' => exact absurd (List.cons.inj htokens).1 (token.val_ne token' (by decide))
  | reference token' =>
    obtain ⟨htoken, hafter⟩ := List.cons.inj htokens
    exact ⟨congrArg reference (Subtype.ext htoken), hafter⟩
  | group opening' => exact absurd (List.cons.inj htokens).1 (token.val_ne opening' (by decide))

/-- An expression in parentheses is determined if the expression is. -/
theorem determined_group {opening closing} {inner : Derivation .expression}
    (h : Determined inner) : Determined (group opening inner closing) := by
  intro d' after after' helses helses' htokens _ _
  cases d' with
  | literal token' => exact absurd (List.cons.inj htokens).1 (opening.val_ne token' (by decide))
  | reference token' => exact absurd (List.cons.inj htokens).1 (opening.val_ne token' (by decide))
  | group opening' inner' closing' =>
    obtain ⟨hopening, hrest⟩ := List.cons.inj htokens
    rw [List.append_eq, List.append_eq, List.append_assoc, List.append_assoc] at hrest
    obtain ⟨rfl, rfl, rfl⟩ := h.before_terminal rfl (by decide) helses helses' hrest
    exact ⟨by rw [Subtype.ext hopening], rfl⟩

/-- The operands of a row are determined if the first one and the rest are. -/
theorem determined_chain {first : Derivation (.operand row)} {more : Derivation (.rest row)}
    (hfirst : Determined first) (hmore : Determined more) : Determined (chain first more) := by
  intro d' after after' helses helses' htokens hover hover'
  cases d' with
  | chain first' more' =>
    simp only [bindsElses, Bool.and_eq_true] at helses helses'
    simp only [tokens, List.append_assoc] at htokens
    obtain ⟨rfl, hrest⟩ := hfirst first' helses.1 helses'.1 htokens
      (closes_operand_rest first more hover) (closes_operand_rest first' more' hover')
    obtain ⟨rfl, rfl⟩ := hmore more' helses.2 helses'.2 hrest
      (fun r hr => hover r (by omega)) (fun r hr => hover' r (by omega))
    exact ⟨rfl, rfl⟩

/-- The rest of a row is over where no operator of the row follows. -/
theorem determined_done : Determined (done : Derivation (.rest row)) := by
  intro d' after after' _ _ htokens hover _
  cases d' with
  | done => exact ⟨rfl, htokens⟩
  | operation sign op hsign operand more =>
    have hnone := hover row le_rfl
    rw [show after = sign :: (operand.tokens ++ more.tokens ++ after') from htokens,
      headKind_cons, Option.bind_some, hsign] at hnone
    cases hnone

/-- The rest of a row is determined if its operand and what is behind are. -/
theorem determined_operation {sign op} {hsign : operatorAt? row sign.kind = some op}
    {operand : Derivation (.operand row)} {more : Derivation (.rest row)}
    (hoperand : Determined operand) (hmore : Determined more) :
    Determined (operation sign op hsign operand more) := by
  intro d' after after' helses helses' htokens hover hover'
  cases d' with
  | done =>
    have hnone := hover' row le_rfl
    rw [show after' = sign :: (operand.tokens ++ more.tokens ++ after) from htokens.symm,
      headKind_cons, Option.bind_some, hsign] at hnone
    cases hnone
  | operation sign' op' hsign' operand' more' =>
    simp only [bindsElses, Bool.and_eq_true] at helses helses'
    simp only [tokens, List.cons_append, List.append_assoc, List.cons.injEq] at htokens
    obtain ⟨rfl, hrest⟩ := htokens
    have hop : op = op' := Option.some.inj (hsign.symm.trans hsign')
    subst hop
    obtain ⟨rfl, htail⟩ := hoperand operand' helses.1 helses'.1 hrest
      (closes_operand_rest operand more fun r hr => hover r (by omega))
      (closes_operand_rest operand' more' fun r hr => hover' r (by omega))
    obtain ⟨rfl, rfl⟩ := hmore more' helses.2 helses'.2 htail hover hover'
    exact ⟨rfl, rfl⟩

/-- Behind the left part of an expression stands an assignment mark or what ends it. -/
theorem determined_plain {equality : Derivation (.operand 4)} (h : Determined equality) :
    Determined (plain equality) := by
  intro d' after after' helses helses' htokens hover hover'
  cases d' with
  | plain equality' =>
    obtain ⟨rfl, rfl⟩ := h equality' helses helses' htokens hover.1 hover'.1
    exact ⟨rfl, rfl⟩
  | assign target' mark' value' =>
    simp only [bindsElses, Bool.and_eq_true] at helses'
    simp only [tokens, List.append_assoc, List.cons_append] at htokens
    have hmark : target'.Closes (headKind (mark'.val :: (value'.tokens ++ after'))) := by
      rw [headKind_cons, mark'.property]
      exact target'.closes_operand rfl
    obtain ⟨-, rfl⟩ := h target' helses helses'.1 htokens hover.1 hmark
    refine absurd ?_ hover.2
    rw [headKind_cons, mark'.property]

/-- An assignment is determined if its target and its value are. -/
theorem determined_assign {mark} {target : Derivation (.operand 4)}
    {value : Derivation .expression} (htarget : Determined target) (hvalue : Determined value) :
    Determined (assign target mark value) := by
  intro d' after after' helses helses' htokens hover hover'
  have hmark (target : Derivation (.operand 4)) (mark : Terminal .assign) (rest : List Token) :
      target.Closes (headKind (mark.val :: rest)) := by
    rw [headKind_cons, mark.property]
    exact target.closes_operand rfl
  simp only [bindsElses, Bool.and_eq_true] at helses
  simp only [tokens, List.append_assoc, List.cons_append] at htokens
  cases d' with
  | plain equality' =>
    obtain ⟨-, rfl⟩ := htarget equality' helses.1 helses' htokens (hmark _ _ _) hover'.1
    refine absurd ?_ hover'.2
    rw [headKind_cons, mark.property]
  | assign target' mark' value' =>
    simp only [bindsElses, Bool.and_eq_true] at helses'
    simp only [tokens, List.append_assoc, List.cons_append] at htokens
    obtain ⟨rfl, hrest⟩ :=
      htarget target' helses.1 helses'.1 htokens (hmark _ _ _) (hmark _ _ _)
    obtain ⟨hmarks, hrest⟩ := List.cons.inj hrest
    obtain ⟨rfl, rfl⟩ := hvalue value' helses.2 helses'.2 hrest hover hover'
    exact ⟨by rw [Subtype.ext hmarks], rfl⟩

/-- The keyword or brace that picks the production of a statement. An expression statement has
none. -/
def lead : Derivation .statement → Option Token.Kind
  | print .. => some .printWord
  | ifThen .. | ifElse .. => some .ifWord
  | loop .. => some .whileWord
  | block .. => some .openBrace
  | evaluate .. => none

/-- The production of a statement shows in its first token. -/
theorem lead_eq (d : Derivation .statement) (after : List Token) :
    d.lead = (headKind (d.tokens ++ after)).filter fun kind => !kind.opensPrimary := by
  cases d with
  | print word =>
    rw [show headKind (_ ++ after) = some word.val.kind from rfl, word.property]
    rfl
  | ifThen word =>
    rw [show headKind (_ ++ after) = some word.val.kind from rfl, word.property]
    rfl
  | ifElse word =>
    rw [show headKind (_ ++ after) = some word.val.kind from rfl, word.property]
    rfl
  | loop word =>
    rw [show headKind (_ ++ after) = some word.val.kind from rfl, word.property]
    rfl
  | block opening =>
    rw [show headKind (_ ++ after) = some opening.val.kind from rfl, opening.property]
    rfl
  | evaluate value semicolon =>
    obtain ⟨token, rest, htokens, hkind⟩ := value.exists_head_expression
    rw [show (evaluate value semicolon).tokens = value.tokens ++ [semicolon.val] from rfl, htokens,
      List.cons_append, List.cons_append, headKind_cons, Option.filter, hkind]
    rfl

/-- Statements that begin the same tokens have the same production. -/
theorem lead_eq_lead {d d' : Derivation .statement} {after after' : List Token}
    (h : d.tokens ++ after = d'.tokens ++ after') : d.lead = d'.lead := by
  rw [d.lead_eq after, h, ← d'.lead_eq after']

/-- A `print` is determined if its value is. -/
theorem determined_print {word semicolon} {value : Derivation .expression}
    (h : Determined value) : Determined (print word value semicolon) := by
  intro d' after after' helses helses' htokens _ _
  have hlead := lead_eq_lead htokens
  cases d' with
  | print word' value' semicolon' =>
    simp only [tokens, List.cons_append, List.append_assoc, List.cons.injEq] at htokens
    obtain ⟨rfl, rfl, rfl⟩ := h.before_terminal rfl (by decide) helses helses' htokens.2
    exact ⟨by rw [Subtype.ext htokens.1], rfl⟩
  | _ => cases hlead

/-- An expression statement is determined if the expression is. -/
theorem determined_evaluate {semicolon} {value : Derivation .expression} (h : Determined value) :
    Determined (evaluate value semicolon) := by
  intro d' after after' helses helses' htokens _ _
  have hlead := lead_eq_lead htokens
  cases d' with
  | evaluate value' semicolon' =>
    simp only [tokens, List.append_assoc] at htokens
    obtain ⟨rfl, rfl, rfl⟩ := h.before_terminal rfl (by decide) helses helses' htokens
    exact ⟨rfl, rfl⟩
  | _ => cases hlead

/-- A loop is determined if its condition and its body are. -/
theorem determined_loop {word opening closing} {condition : Derivation .expression}
    {body : Derivation .statement} (hcondition : Determined condition) (hbody : Determined body) :
    Determined (loop word opening condition closing body) := by
  intro d' after after' helses helses' htokens hover hover'
  have hlead := lead_eq_lead htokens
  cases d' with
  | loop word' opening' condition' closing' body' =>
    simp only [bindsElses, Bool.and_eq_true] at helses helses'
    simp only [tokens, List.cons_append, List.append_assoc, List.cons.injEq] at htokens
    obtain ⟨hword, hopening, hrest⟩ := htokens
    obtain ⟨rfl, rfl, htail⟩ :=
      hcondition.before_terminal rfl (by decide) helses.1 helses'.1 hrest
    obtain ⟨rfl, rfl⟩ := hbody body' helses.2 helses'.2 htail hover hover'
    exact ⟨by rw [Subtype.ext hword, Subtype.ext hopening], rfl⟩
  | _ => cases hlead

/-- A conditional without an `else` differs from one with an `else`: its branch and the `else`
behind it would leave the other branch open in front of that `else`. -/
theorem determined_ifThen {word opening closing} {condition : Derivation .expression}
    {thenBranch : Derivation .statement} (hcondition : Determined condition)
    (hthen : Determined thenBranch) :
    Determined (ifThen word opening condition closing thenBranch) := by
  intro d' after after' helses helses' htokens hover hover'
  have hlead := lead_eq_lead htokens
  simp only [bindsElses, Bool.and_eq_true] at helses
  have hnoElse : headKind after ≠ some .elseWord := hover rfl
  cases d' with
  | ifThen word' opening' condition' closing' thenBranch' =>
    simp only [bindsElses, Bool.and_eq_true] at helses'
    simp only [tokens, List.cons_append, List.append_assoc, List.cons.injEq] at htokens
    obtain ⟨hword, hopening, hrest⟩ := htokens
    obtain ⟨rfl, rfl, htail⟩ :=
      hcondition.before_terminal rfl (by decide) helses.1 helses'.1 hrest
    obtain ⟨rfl, rfl⟩ :=
      hthen thenBranch' helses.2 helses'.2 htail (fun _ => hnoElse) (fun _ => hover' rfl)
    exact ⟨by rw [Subtype.ext hword, Subtype.ext hopening], rfl⟩
  | ifElse word' opening' condition' closing' thenBranch' otherwise' elseBranch' =>
    simp only [bindsElses, Bool.and_eq_true, Bool.not_eq_true'] at helses'
    simp only [tokens, List.cons_append, List.append_assoc, List.cons.injEq] at htokens
    obtain ⟨⟨⟨hopen, hcondition'⟩, hthen'⟩, -⟩ := helses'
    obtain ⟨rfl, rfl, htail⟩ :=
      hcondition.before_terminal rfl (by decide) helses.1 hcondition' htokens.2.2
    obtain ⟨-, rfl⟩ := hthen thenBranch' helses.2 hthen' htail (fun _ => hnoElse)
      (fun hopen' => absurd hopen' (by simp [hopen]))
    refine absurd ?_ hnoElse
    rw [headKind_cons, otherwise'.property]
  | _ => cases hlead

/-- A conditional with an `else` is determined if its condition and its branches are. -/
theorem determined_ifElse {word opening closing otherwise} {condition : Derivation .expression}
    {thenBranch elseBranch : Derivation .statement} (hcondition : Determined condition)
    (hthen : Determined thenBranch) (helse : Determined elseBranch) :
    Determined (ifElse word opening condition closing thenBranch otherwise elseBranch) := by
  intro d' after after' helses helses' htokens hover hover'
  have hlead := lead_eq_lead htokens
  simp only [bindsElses, Bool.and_eq_true, Bool.not_eq_true'] at helses
  obtain ⟨⟨⟨hopen, hconditionElses⟩, hthenElses⟩, helseElses⟩ := helses
  cases d' with
  | ifThen word' opening' condition' closing' thenBranch' =>
    simp only [bindsElses, Bool.and_eq_true] at helses'
    simp only [tokens, List.cons_append, List.append_assoc, List.cons.injEq] at htokens
    -- The branches agree, so the `else` would have to follow the other derivation.
    have hnoElse : headKind after' ≠ some .elseWord := hover' rfl
    obtain ⟨rfl, rfl, htail⟩ :=
      hcondition.before_terminal rfl (by decide) hconditionElses helses'.1 htokens.2.2
    obtain ⟨-, rfl⟩ := hthen thenBranch' hthenElses helses'.2 htail
      (fun hopen' => absurd hopen' (by simp [hopen])) (fun _ => hnoElse)
    refine absurd ?_ hnoElse
    rw [headKind_cons, otherwise.property]
  | ifElse word' opening' condition' closing' thenBranch' otherwise' elseBranch' =>
    simp only [bindsElses, Bool.and_eq_true, Bool.not_eq_true'] at helses'
    obtain ⟨⟨⟨hopen', hconditionElses'⟩, hthenElses'⟩, helseElses'⟩ := helses'
    simp only [tokens, List.cons_append, List.append_assoc, List.cons.injEq] at htokens
    obtain ⟨hword, hopening, hrest⟩ := htokens
    obtain ⟨rfl, rfl, htail⟩ :=
      hcondition.before_terminal rfl (by decide) hconditionElses hconditionElses' hrest
    obtain ⟨rfl, hbranch⟩ := hthen thenBranch' hthenElses hthenElses' htail
      (fun h => absurd h (by simp [hopen])) (fun h => absurd h (by simp [hopen']))
    obtain ⟨hotherwise, hlast⟩ := List.cons.inj hbranch
    obtain ⟨rfl, rfl⟩ := helse elseBranch' helseElses helseElses' hlast hover hover'
    exact ⟨by rw [Subtype.ext hword, Subtype.ext hopening, Subtype.ext hotherwise], rfl⟩
  | _ => cases hlead

/-- A block is determined if its statements are. -/
theorem determined_block {opening closing} {inner : Derivation .declarations}
    (h : Determined inner) : Determined (block opening inner closing) := by
  intro d' after after' helses helses' htokens _ _
  have hlead := lead_eq_lead htokens
  cases d' with
  | block opening' inner' closing' =>
    simp only [tokens, List.cons_append, List.append_assoc, List.cons.injEq,
      List.nil_append] at htokens
    obtain ⟨hopening, hrest⟩ := htokens
    have hclosing (closing : Terminal .closeBrace) (rest : List Token) :
        headKind (closing.val :: rest) = some .closeBrace := by
      rw [headKind_cons, closing.property]
    obtain ⟨rfl, htail⟩ := h inner' helses helses' hrest (.inr (hclosing _ _)) (.inr (hclosing _ _))
    obtain ⟨hclosings, rfl⟩ := List.cons.inj htail
    exact ⟨by rw [Subtype.ext hopening, Subtype.ext hclosings], rfl⟩
  | _ => cases hlead

/-- Only declarations of variables begin with `var`. -/
theorem headKind_statement_ne_varWord (d : Derivation .statement) (after : List Token) :
    headKind (d.tokens ++ after) ≠ some .varWord := by
  obtain ⟨token, rest, htokens, hkind⟩ := d.exists_head.resolve_left (by decide)
  rw [htokens, List.cons_append, headKind_cons]
  intro hvar
  rw [Option.some.injEq] at hvar
  rw [hvar] at hkind
  cases hkind

/-- A declaration without a value is determined. -/
theorem determined_declare {word name semicolon} :
    Determined (declare word name semicolon) := by
  intro d' after after' helses helses' htokens _ _
  cases d' with
  | declare word' name' semicolon' =>
    simp only [tokens, List.cons_append, List.cons.injEq, List.nil_append] at htokens
    obtain ⟨hword, hname, hsemicolon, rfl⟩ := htokens
    exact ⟨by rw [Subtype.ext hword, Subtype.ext hname, Subtype.ext hsemicolon], rfl⟩
  | define word' name' mark' initial' semicolon' =>
    simp only [tokens, List.cons_append, List.cons.injEq] at htokens
    exact absurd htokens.2.2.1 (semicolon.val_ne mark' (by decide))
  | statement inner' =>
    refine absurd ?_ (inner'.headKind_statement_ne_varWord after')
    rw [show inner'.tokens ++ after' = _ from htokens.symm]
    simp [tokens, word.property]

/-- A declaration with a value is determined if the value is. -/
theorem determined_define {word name mark semicolon} {initial : Derivation .expression}
    (h : Determined initial) : Determined (define word name mark initial semicolon) := by
  intro d' after after' helses helses' htokens _ _
  cases d' with
  | declare word' name' semicolon' =>
    simp only [tokens, List.cons_append, List.cons.injEq] at htokens
    exact absurd htokens.2.2.1 (mark.val_ne semicolon' (by decide))
  | define word' name' mark' initial' semicolon' =>
    simp only [tokens, List.cons_append, List.append_assoc, List.cons.injEq] at htokens
    obtain ⟨hword, hname, hmark, hrest⟩ := htokens
    obtain ⟨rfl, rfl, rfl⟩ := h.before_terminal rfl (by decide) helses helses' hrest
    exact ⟨by rw [Subtype.ext hword, Subtype.ext hname, Subtype.ext hmark], rfl⟩
  | statement inner' =>
    refine absurd ?_ (inner'.headKind_statement_ne_varWord after')
    rw [show inner'.tokens ++ after' = _ from htokens.symm]
    simp [tokens, word.property]

/-- A statement where declarations are allowed is determined if it is one in itself. -/
theorem determined_statement {inner : Derivation .statement} (h : Determined inner) :
    Determined (statement inner) := by
  intro d' after after' helses helses' htokens hover hover'
  cases d' with
  | declare word' name' semicolon' =>
    refine absurd ?_ (inner.headKind_statement_ne_varWord after)
    rw [show inner.tokens ++ after = _ from htokens]
    simp [tokens, word'.property]
  | define word' name' mark' initial' semicolon' =>
    refine absurd ?_ (inner.headKind_statement_ne_varWord after)
    rw [show inner.tokens ++ after = _ from htokens]
    simp [tokens, word'.property]
  | statement inner' =>
    obtain ⟨rfl, rfl⟩ := h inner' helses helses' htokens hover hover'
    exact ⟨rfl, rfl⟩

/-- A list of declarations ends where no declaration can begin. -/
theorem headKind_next_ne {first : Derivation .declaration} {more : Derivation .declarations}
    {after : List Token} :
    ¬ (headKind ((next first more).tokens ++ after) = none ∨
      headKind ((next first more).tokens ++ after) = some .closeBrace) := by
  obtain ⟨token, rest, htokens, hkind⟩ := first.exists_head_declaration
  simp only [tokens, htokens, List.cons_append, headKind_cons]
  rintro (hnone | hbrace)
  · cases hnone
  · rw [Option.some.injEq] at hbrace
    rw [hbrace] at hkind
    cases hkind

/-- No declaration begins where the list of them is over. -/
theorem determined_empty : Determined empty := by
  intro d' after after' _ _ htokens hover _
  cases d' with
  | empty => exact ⟨rfl, htokens⟩
  | next first' more' =>
    rw [show after = _ from htokens] at hover
    exact absurd hover headKind_next_ne

/-- A list of declarations is determined if the first one and the others are. -/
theorem determined_next {first : Derivation .declaration} {more : Derivation .declarations}
    (hfirst : Determined first) (hmore : Determined more) : Determined (next first more) := by
  intro d' after after' helses helses' htokens hover hover'
  have hnoElse {after : List Token}
      (h : headKind after = none ∨ headKind after = some .closeBrace) :
      headKind after ≠ some .elseWord := by
    rcases h with h | h <;> simp [h]
  cases d' with
  | empty =>
    rw [show after' = _ from htokens.symm] at hover'
    exact absurd hover' headKind_next_ne
  | next first' more' =>
    simp only [bindsElses, Bool.and_eq_true] at helses helses'
    simp only [tokens, List.append_assoc] at htokens
    obtain ⟨rfl, hrest⟩ := hfirst first' helses.1 helses'.1 htokens
      (closes_declaration_next first more (hnoElse hover))
      (closes_declaration_next first' more' (hnoElse hover'))
    obtain ⟨rfl, rfl⟩ := hmore more' helses.2 helses'.2 hrest hover hover'
    exact ⟨rfl, rfl⟩

/-- Every derivation is determined by its tokens. -/
theorem determined {s : Symbol} (d : Derivation s) : Determined d := by
  induction d with
  | literal token => exact determined_literal token
  | reference token => exact determined_reference token
  | group _ _ _ ih => exact determined_group ih
  | chain _ _ ihfirst ihmore => exact determined_chain ihfirst ihmore
  | done => exact determined_done
  | operation _ _ _ _ _ ihoperand ihmore => exact determined_operation ihoperand ihmore
  | plain _ ih => exact determined_plain ih
  | assign _ _ _ ihtarget ihvalue => exact determined_assign ihtarget ihvalue
  | print _ _ _ ih => exact determined_print ih
  | ifThen _ _ _ _ _ ihcondition ihthen => exact determined_ifThen ihcondition ihthen
  | ifElse _ _ _ _ _ _ _ ihcondition ihthen ihelse =>
    exact determined_ifElse ihcondition ihthen ihelse
  | loop _ _ _ _ _ ihcondition ihbody => exact determined_loop ihcondition ihbody
  | block _ _ _ ih => exact determined_block ih
  | evaluate _ _ ih => exact determined_evaluate ih
  | declare => exact determined_declare
  | define _ _ _ _ _ ih => exact determined_define ih
  | statement _ ih => exact determined_statement ih
  | empty => exact determined_empty
  | next _ _ ihfirst ihmore => exact determined_next ihfirst ihmore

/-- Two lists of declarations with the same tokens are the same derivation. -/
theorem eq_of_tokens_eq {d d' : Derivation .declarations} (helses : d.bindsElses = true)
    (helses' : d'.bindsElses = true) (h : d.tokens = d'.tokens) : d = d' := by
  have happend : d.tokens ++ [] = d'.tokens ++ [] := by rw [h]
  exact (d.determined d' helses helses' happend (.inl rfl) (.inl rfl)).1

end Determined

end Derivation

end Grammar

end ScriptKit
