import ScriptKit.Proofs.Route

/-!
# Derivations of the grammar

The grammar of `ScriptKit.Grammar.Rules` as a type: `Derivation s` has one constructor for each
production of the symbol `s`, and repetitions are written out as lists of their rounds. A
derivation knows the tokens it derives and the tree it stands for. The kinds of its tokens are part
of it, so there are no derivations of anything else.

Three conditions are no matter of productions and are put on derivations from outside: how deep
groups, assigned values, blocks and branches may stand in each other, that only variables are
assigned to, and that an `else` belongs to the nearest `if` that can take it. `FitsIn` is their
conjunction.
-/

set_option autoImplicit false

namespace ScriptKit

/-- Is the node a variable? -/
def Node.isVariable : Node → Bool
  | .reference .. => true
  | _ => false

/-- The kind of the first of the tokens, if there is one. -/
def headKind (tokens : List Token) : Option Token.Kind := tokens.head?.map Token.kind

/-- Nothing has no first kind. -/
@[simp] theorem headKind_nil : headKind [] = none := rfl

/-- The first kind is that of the first token. -/
@[simp] theorem headKind_cons (token : Token) (rest : List Token) :
    headKind (token :: rest) = some token.kind := rfl

namespace Grammar

/-- The symbols of the grammar. `operand row` is what operators of that row stand between, so
`operand 0` is a primary and `operand 4` an expression without an assignment; `rest row` is a list
of operators of the row, each with the operand to its right. -/
inductive Symbol where
  | operand (row : Nat)
  | rest (row : Nat)
  | expression
  | statement
  | declaration
  | declarations
deriving DecidableEq, Repr

/-- What a derivation of the symbol stands for. The rest of a row takes the part to its left. -/
abbrev Symbol.Tree : Symbol → Type
  | .operand _ | .expression | .statement | .declaration => Node
  | .rest _ => Node → Node
  | .declarations => List Node

/-- A token of the given kind. -/
abbrev Terminal (kind : Token.Kind) : Type := { token : Token // token.kind = kind }

/-- The derivations of a symbol. -/
inductive Derivation : Symbol → Type where
  | literal (token : Terminal .number) : Derivation (.operand 0)
  | reference (token : Terminal .name) : Derivation (.operand 0)
  | group (opening : Terminal .openParen) (inner : Derivation .expression)
      (closing : Terminal .closeParen) : Derivation (.operand 0)
  | chain {row : Nat} (first : Derivation (.operand row)) (more : Derivation (.rest row)) :
      Derivation (.operand (row + 1))
  | done {row : Nat} : Derivation (.rest row)
  | operation {row : Nat} (sign : Token) (op : Operator)
      (hsign : operatorAt? row sign.kind = some op) (operand : Derivation (.operand row))
      (more : Derivation (.rest row)) : Derivation (.rest row)
  | plain (equality : Derivation (.operand 4)) : Derivation .expression
  | assign (target : Derivation (.operand 4)) (mark : Terminal .assign)
      (value : Derivation .expression) : Derivation .expression
  | print (word : Terminal .printWord) (value : Derivation .expression)
      (semicolon : Terminal .semicolon) : Derivation .statement
  | ifThen (word : Terminal .ifWord) (opening : Terminal .openParen)
      (condition : Derivation .expression) (closing : Terminal .closeParen)
      (thenBranch : Derivation .statement) : Derivation .statement
  | ifElse (word : Terminal .ifWord) (opening : Terminal .openParen)
      (condition : Derivation .expression) (closing : Terminal .closeParen)
      (thenBranch : Derivation .statement) (otherwise : Terminal .elseWord)
      (elseBranch : Derivation .statement) : Derivation .statement
  | loop (word : Terminal .whileWord) (opening : Terminal .openParen)
      (condition : Derivation .expression) (closing : Terminal .closeParen)
      (body : Derivation .statement) : Derivation .statement
  | block (opening : Terminal .openBrace) (inner : Derivation .declarations)
      (closing : Terminal .closeBrace) : Derivation .statement
  | evaluate (value : Derivation .expression) (semicolon : Terminal .semicolon) :
      Derivation .statement
  | declare (word : Terminal .varWord) (name : Terminal .name)
      (semicolon : Terminal .semicolon) : Derivation .declaration
  | define (word : Terminal .varWord) (name : Terminal .name) (mark : Terminal .assign)
      (initial : Derivation .expression) (semicolon : Terminal .semicolon) :
      Derivation .declaration
  | statement (inner : Derivation .statement) : Derivation .declaration
  | empty : Derivation .declarations
  | next (first : Derivation .declaration) (more : Derivation .declarations) :
      Derivation .declarations

namespace Derivation

/-- The tokens that are derived. -/
@[simp] def tokens : {s : Symbol} → Derivation s → List Token
  | _, literal token => [token.val]
  | _, reference token => [token.val]
  | _, group opening inner closing => opening.val :: (inner.tokens ++ [closing.val])
  | _, chain first more => first.tokens ++ more.tokens
  | _, done => []
  | _, operation sign _ _ operand more => sign :: (operand.tokens ++ more.tokens)
  | _, plain equality => equality.tokens
  | _, assign target mark value => target.tokens ++ mark.val :: value.tokens
  | _, print word value semicolon => word.val :: (value.tokens ++ [semicolon.val])
  | _, ifThen word opening condition closing thenBranch =>
    word.val :: opening.val :: (condition.tokens ++ closing.val :: thenBranch.tokens)
  | _, ifElse word opening condition closing thenBranch otherwise elseBranch =>
    word.val :: opening.val ::
      (condition.tokens ++ closing.val :: (thenBranch.tokens ++ otherwise.val :: elseBranch.tokens))
  | _, loop word opening condition closing body =>
    word.val :: opening.val :: (condition.tokens ++ closing.val :: body.tokens)
  | _, block opening inner closing => opening.val :: (inner.tokens ++ [closing.val])
  | _, evaluate value semicolon => value.tokens ++ [semicolon.val]
  | _, declare word name semicolon => [word.val, name.val, semicolon.val]
  | _, define word name mark initial semicolon =>
    word.val :: name.val :: mark.val :: (initial.tokens ++ [semicolon.val])
  | _, statement inner => inner.tokens
  | _, empty => []
  | _, next first more => first.tokens ++ more.tokens

/-- The tree that the derivation stands for. Operators of one row associate to the left, and the
line of a node is that of the token that names it: the operator, the keyword, the brace, the
assigned variable or the first token of an expression statement. -/
@[simp] def tree : {s : Symbol} → Derivation s → s.Tree
  | _, literal token =>
    .literal (.number (Number.ofNumeral token.val.text)) (some token.val.line)
  | _, reference token => .reference token.val.text (some token.val.line)
  | _, group _ inner _ => inner.tree
  | _, chain first more => more.tree first.tree
  | _, done => fun left => left
  | _, operation sign op _ operand more =>
    fun left => more.tree (.binary op left operand.tree (some sign.line))
  | _, plain equality => equality.tree
  | _, assign target _ value => (assignment? target.tree value.tree).getD target.tree
  | _, print word value _ => .print value.tree (some word.val.line)
  | _, ifThen word _ condition _ thenBranch =>
    .ifThen condition.tree thenBranch.tree (some word.val.line)
  | _, ifElse word _ condition _ thenBranch _ elseBranch =>
    .ifElse condition.tree thenBranch.tree elseBranch.tree (some word.val.line)
  | _, loop word _ condition _ body => .loop condition.tree body.tree (some word.val.line)
  | _, block opening inner _ => .block inner.tree (some opening.val.line)
  | _, evaluate value _ =>
    .evaluate value.tree (value.tokens.head?.map fun token => (token.line : Int))
  | _, declare word name _ => .declare name.val.text (some word.val.line)
  | _, define word name _ initial _ => .define name.val.text initial.tree (some word.val.line)
  | _, statement inner => inner.tree
  | _, empty => []
  | _, next first more => first.tree :: more.tree

/-- How many levels deep groups, assigned values, blocks and branches stand in each other. -/
@[simp] def depth : {s : Symbol} → Derivation s → Nat
  | _, literal _ | _, reference _ | _, done | _, declare .. | _, empty => 0
  | _, group _ inner _ => inner.depth + 1
  | _, chain first more => max first.depth more.depth
  | _, operation _ _ _ operand more => max operand.depth more.depth
  | _, plain equality => equality.depth
  | _, assign target _ value => max target.depth (value.depth + 1)
  | _, print _ value _ => value.depth
  | _, ifThen _ _ condition _ thenBranch => max condition.depth (thenBranch.depth + 1)
  | _, ifElse _ _ condition _ thenBranch _ elseBranch =>
    max condition.depth (max thenBranch.depth elseBranch.depth + 1)
  | _, loop _ _ condition _ body => max condition.depth (body.depth + 1)
  | _, block _ inner _ => inner.depth + 1
  | _, evaluate value _ => value.depth
  | _, define _ _ _ initial _ => initial.depth
  | _, statement inner => inner.depth
  | _, next first more => max first.depth more.depth

/-- Is the target of every assignment a variable? Parentheses around it are allowed. -/
@[simp] def namesTargets : {s : Symbol} → Derivation s → Bool
  | _, literal _ | _, reference _ | _, done | _, declare .. | _, empty => true
  | _, group _ inner _ => inner.namesTargets
  | _, chain first more => first.namesTargets && more.namesTargets
  | _, operation _ _ _ operand more => operand.namesTargets && more.namesTargets
  | _, plain equality => equality.namesTargets
  | _, assign target _ value =>
    Node.isVariable target.tree && target.namesTargets && value.namesTargets
  | _, print _ value _ => value.namesTargets
  | _, ifThen _ _ condition _ thenBranch => condition.namesTargets && thenBranch.namesTargets
  | _, ifElse _ _ condition _ thenBranch _ elseBranch =>
    condition.namesTargets && thenBranch.namesTargets && elseBranch.namesTargets
  | _, loop _ _ condition _ body => condition.namesTargets && body.namesTargets
  | _, block _ inner _ => inner.namesTargets
  | _, evaluate value _ => value.namesTargets
  | _, define _ _ _ initial _ => initial.namesTargets
  | _, statement inner => inner.namesTargets
  | _, next first more => first.namesTargets && more.namesTargets

/-- Does the derivation end in an `if` that is still without an `else`? -/
@[simp] def endsOpen : {s : Symbol} → Derivation s → Bool
  | _, ifThen .. => true
  | _, ifElse _ _ _ _ _ _ elseBranch => elseBranch.endsOpen
  | _, loop _ _ _ _ body => body.endsOpen
  | _, statement inner => inner.endsOpen
  | _, _ => false

/-- Does every `else` belong to the nearest `if` that is still without one? It does if no branch
that stands before an `else` ends in such an `if`. -/
@[simp] def bindsElses : {s : Symbol} → Derivation s → Bool
  | _, literal _ | _, reference _ | _, done | _, declare .. | _, empty => true
  | _, group _ inner _ => inner.bindsElses
  | _, chain first more => first.bindsElses && more.bindsElses
  | _, operation _ _ _ operand more => operand.bindsElses && more.bindsElses
  | _, plain equality => equality.bindsElses
  | _, assign target _ value => target.bindsElses && value.bindsElses
  | _, print _ value _ => value.bindsElses
  | _, ifThen _ _ condition _ thenBranch => condition.bindsElses && thenBranch.bindsElses
  | _, ifElse _ _ condition _ thenBranch _ elseBranch =>
    !thenBranch.endsOpen && condition.bindsElses && thenBranch.bindsElses && elseBranch.bindsElses
  | _, loop _ _ condition _ body => condition.bindsElses && body.bindsElses
  | _, block _ inner _ => inner.bindsElses
  | _, evaluate value _ => value.bindsElses
  | _, define _ _ _ initial _ => initial.bindsElses
  | _, statement inner => inner.bindsElses
  | _, next first more => first.bindsElses && more.bindsElses

/-- The derivation is allowed where that many levels are left. -/
structure FitsIn {s : Symbol} (levels : Nat) (d : Derivation s) : Prop where
  depth_le : d.depth ≤ levels
  namesTargets : d.namesTargets = true
  bindsElses : d.bindsElses = true

section FitsIn

variable {levels row : Nat}

/-- The conditions on a derivation, as a conjunction. -/
theorem fitsIn_iff {s : Symbol} {d : Derivation s} :
    d.FitsIn levels ↔ d.depth ≤ levels ∧ d.namesTargets = true ∧ d.bindsElses = true :=
  ⟨fun h => ⟨h.depth_le, h.namesTargets, h.bindsElses⟩, fun h => ⟨h.1, h.2.1, h.2.2⟩⟩

/-- What stands one level further in needs one level less. -/
theorem fitsIn_succ_iff {s : Symbol} {d : Derivation s} :
    (∃ deeper, levels = deeper + 1 ∧ d.FitsIn deeper) ↔
      d.depth + 1 ≤ levels ∧ d.namesTargets = true ∧ d.bindsElses = true := by
  constructor
  · rintro ⟨deeper, rfl, h⟩
    exact ⟨Nat.succ_le_succ h.depth_le, h.namesTargets, h.bindsElses⟩
  · rintro ⟨hdepth, htargets, helses⟩
    exact ⟨levels - 1, by omega, by omega, htargets, helses⟩

/-- A group takes one level. -/
theorem fitsIn_group {opening closing} {inner : Derivation .expression} :
    (group opening inner closing).FitsIn levels ↔
      ∃ deeper, levels = deeper + 1 ∧ inner.FitsIn deeper := by
  rw [fitsIn_iff, fitsIn_succ_iff]
  rfl

/-- A row of operands takes no level of its own. -/
theorem fitsIn_chain {first : Derivation (.operand row)} {more : Derivation (.rest row)} :
    (chain first more).FitsIn levels ↔ first.FitsIn levels ∧ more.FitsIn levels := by
  simp only [fitsIn_iff, depth, namesTargets, bindsElses, max_le_iff, Bool.and_eq_true]
  tauto

/-- An operation in a row takes no level of its own. -/
theorem fitsIn_operation {sign op} {hsign : operatorAt? row sign.kind = some op}
    {operand : Derivation (.operand row)} {more : Derivation (.rest row)} :
    (operation sign op hsign operand more).FitsIn levels ↔
      operand.FitsIn levels ∧ more.FitsIn levels := by
  simp only [fitsIn_iff, depth, namesTargets, bindsElses, max_le_iff, Bool.and_eq_true]
  tauto

/-- An expression that assigns nothing takes the levels of its operand. -/
theorem fitsIn_plain {equality : Derivation (.operand 4)} :
    (plain equality).FitsIn levels ↔ equality.FitsIn levels := by
  simp only [fitsIn_iff, depth, namesTargets, bindsElses]

/-- An assignment takes one level for its value, and its target has to be a variable. -/
theorem fitsIn_assign {mark} {target : Derivation (.operand 4)} {value : Derivation .expression} :
    (assign target mark value).FitsIn levels ↔
      Node.isVariable target.tree = true ∧ target.FitsIn levels ∧
        ∃ deeper, levels = deeper + 1 ∧ value.FitsIn deeper := by
  rw [fitsIn_succ_iff]
  simp only [fitsIn_iff, depth, namesTargets, bindsElses, max_le_iff, Bool.and_eq_true]
  tauto

/-- Printing takes the levels of the expression. -/
theorem fitsIn_print {word semicolon} {value : Derivation .expression} :
    (print word value semicolon).FitsIn levels ↔ value.FitsIn levels := by
  simp only [fitsIn_iff, depth, namesTargets, bindsElses]

/-- A conditional takes one level for its branch and none for its condition. -/
theorem fitsIn_ifThen {word opening closing} {condition : Derivation .expression}
    {thenBranch : Derivation .statement} :
    (ifThen word opening condition closing thenBranch).FitsIn levels ↔
      condition.FitsIn levels ∧ ∃ deeper, levels = deeper + 1 ∧ thenBranch.FitsIn deeper := by
  rw [fitsIn_succ_iff]
  simp only [fitsIn_iff, depth, namesTargets, bindsElses, max_le_iff, Bool.and_eq_true]
  tauto

/-- A conditional with two branches takes one level for each of them. The first branch must not end
in a conditional that the `else` could belong to. -/
theorem fitsIn_ifElse {word opening closing otherwise} {condition : Derivation .expression}
    {thenBranch elseBranch : Derivation .statement} :
    (ifElse word opening condition closing thenBranch otherwise elseBranch).FitsIn levels ↔
      thenBranch.endsOpen = false ∧ condition.FitsIn levels ∧
        ∃ deeper, levels = deeper + 1 ∧ thenBranch.FitsIn deeper ∧ elseBranch.FitsIn deeper := by
  constructor
  · intro h
    obtain ⟨hdepth, htargets, helses⟩ := fitsIn_iff.mp h
    simp only [depth, namesTargets, bindsElses, max_le_iff, Bool.and_eq_true,
      Bool.not_eq_true'] at hdepth htargets helses
    obtain ⟨⟨⟨hopen, hcondition⟩, hthen⟩, helse⟩ := helses
    refine ⟨hopen, ⟨hdepth.1, htargets.1.1, hcondition⟩, levels - 1, by omega, ?_, ?_⟩
    · exact ⟨by omega, htargets.1.2, hthen⟩
    · exact ⟨by omega, htargets.2, helse⟩
  · rintro ⟨hopen, hcondition, deeper, rfl, hthen, helse⟩
    have hthenDepth := hthen.depth_le
    have helseDepth := helse.depth_le
    refine ⟨?_, ?_, ?_⟩
    · simp only [depth, max_le_iff]
      exact ⟨hcondition.depth_le, by omega⟩
    · simp [namesTargets, hcondition.namesTargets, hthen.namesTargets, helse.namesTargets]
    · simp [bindsElses, hopen, hcondition.bindsElses, hthen.bindsElses, helse.bindsElses]

/-- A loop takes one level for its body and none for its condition. -/
theorem fitsIn_loop {word opening closing} {condition : Derivation .expression}
    {body : Derivation .statement} :
    (loop word opening condition closing body).FitsIn levels ↔
      condition.FitsIn levels ∧ ∃ deeper, levels = deeper + 1 ∧ body.FitsIn deeper := by
  rw [fitsIn_succ_iff]
  simp only [fitsIn_iff, depth, namesTargets, bindsElses, max_le_iff, Bool.and_eq_true]
  tauto

/-- A block takes one level. -/
theorem fitsIn_block {opening closing} {inner : Derivation .declarations} :
    (block opening inner closing).FitsIn levels ↔
      ∃ deeper, levels = deeper + 1 ∧ inner.FitsIn deeper := by
  rw [fitsIn_iff, fitsIn_succ_iff]
  rfl

/-- A statement that evaluates takes the levels of its expression. -/
theorem fitsIn_evaluate {semicolon} {value : Derivation .expression} :
    (evaluate value semicolon).FitsIn levels ↔ value.FitsIn levels := by
  simp only [fitsIn_iff, depth, namesTargets, bindsElses]

/-- A definition takes the levels of its initial value. -/
theorem fitsIn_define {word name mark semicolon} {initial : Derivation .expression} :
    (define word name mark initial semicolon).FitsIn levels ↔ initial.FitsIn levels := by
  simp only [fitsIn_iff, depth, namesTargets, bindsElses]

/-- A statement takes no further level as a declaration. -/
theorem fitsIn_statement {inner : Derivation .statement} :
    (statement inner).FitsIn levels ↔ inner.FitsIn levels := by
  simp only [fitsIn_iff, depth, namesTargets, bindsElses]

/-- Declarations in a row fit if each of them does. -/
theorem fitsIn_next {first : Derivation .declaration} {more : Derivation .declarations} :
    (next first more).FitsIn levels ↔ first.FitsIn levels ∧ more.FitsIn levels := by
  simp only [fitsIn_iff, depth, namesTargets, bindsElses, max_le_iff, Bool.and_eq_true]
  tauto

/-- Derivations without parts fit everywhere. -/
theorem fitsIn_leaf {s : Symbol} {d : Derivation s} (hdepth : d.depth = 0)
    (htargets : d.namesTargets = true) (helses : d.bindsElses = true) : d.FitsIn levels :=
  ⟨by omega, htargets, helses⟩

end FitsIn

end Derivation

end Grammar

end ScriptKit
