import ScriptKit.Proofs.GrammarCorrect
import ScriptKit.Proofs.Layout
import ScriptKit.Proofs.Lexemes
import ScriptKit.Proofs.Listing
import ScriptKit.Proofs.NumberText
import ScriptKit.Proofs.Scanning

/-!
# Listings of expressions can be read

A listing has parentheses around every operator and every assignment, so each part of an expression
is a primary of the grammar, and neither the rows of operators nor their order matter. Listed whole
numbers end in `.0`, which no numeral does. Without it, and with a semicolon behind, the listing of
an expression is a text that is read as this expression, if its parentheses and assigned values are
within the allowed levels.
-/

set_option autoImplicit false

namespace ScriptKit

open Grammar Token

/-! ## Primaries -/

namespace Grammar

/-- The row of the operator. -/
def rowOf : Operator → Nat
  | .multiply | .divide | .modulo => 0
  | .add | .subtract => 1
  | .less | .greater => 2
  | .equal => 3

/-- The row of an operator has it. -/
theorem operatorAt?_rowOf (op : Operator) : operatorAt? (rowOf op) op.kind = some op := by
  cases op <;> rfl

namespace Derivation

section Raised

variable {levels row : Nat} {sign : Token} {op : Operator}

/-- A primary as an operand of any row. -/
def raised (d : Derivation (.operand 0)) : (row : Nat) → Derivation (.operand row)
  | 0 => d
  | row + 1 => .chain (d.raised row) .done

/-- Two primaries with an operator between them, as an operand of any looser row. -/
def joined (hsign : operatorAt? row sign.kind = some op) (lhs rhs : Derivation (.operand 0)) :
    (above : Nat) → Derivation (.operand (row + 1 + above))
  | 0 => .chain (lhs.raised row) (.operation sign op hsign (rhs.raised row) .done)
  | above + 1 => .chain (joined hsign lhs rhs above) .done

/-- An operand with no operator behind it needs no levels for that. -/
theorem fitsIn_done : (done : Derivation (.rest row)).FitsIn levels := fitsIn_leaf rfl rfl rfl

/-- A primary has the same tokens as an operand of any row. -/
@[simp] theorem tokens_raised (d : Derivation (.operand 0)) (row : Nat) :
    (d.raised row).tokens = d.tokens := by
  induction row with
  | zero => rfl
  | succ row ih => simp [raised, ih]

/-- A primary has the same tree as an operand of any row. -/
@[simp] theorem tree_raised (d : Derivation (.operand 0)) (row : Nat) :
    (d.raised row).tree = d.tree := by
  induction row with
  | zero => rfl
  | succ row ih => simpa [raised] using ih

/-- A primary needs no more levels as an operand of any row. -/
theorem FitsIn.raised {d : Derivation (.operand 0)} (h : d.FitsIn levels) (row : Nat) :
    (d.raised row).FitsIn levels := by
  induction row with
  | zero => exact h
  | succ row ih => exact fitsIn_chain.mpr ⟨ih, fitsIn_done⟩

variable {hsign : operatorAt? row sign.kind = some op} {lhs rhs : Derivation (.operand 0)}

/-- The tokens of the joined operand are those of both sides around the operator. -/
@[simp] theorem tokens_joined (above : Nat) :
    (joined hsign lhs rhs above).tokens = lhs.tokens ++ sign :: rhs.tokens := by
  induction above with
  | zero => simp [joined]
  | succ above ih => simp [joined, ih]

/-- The tree of the joined operand is the operation. -/
@[simp] theorem tree_joined (above : Nat) :
    (joined hsign lhs rhs above).tree = .binary op lhs.tree rhs.tree (some sign.line) := by
  induction above with
  | zero => simp [joined]
  | succ above ih => simpa [joined] using ih

/-- The joined operand needs no more levels than its sides. -/
theorem FitsIn.joined (hlhs : lhs.FitsIn levels) (hrhs : rhs.FitsIn levels) (above : Nat) :
    (joined hsign lhs rhs above).FitsIn levels := by
  induction above with
  | zero =>
    exact fitsIn_chain.mpr ⟨hlhs.raised row, fitsIn_operation.mpr ⟨hrhs.raised row, fitsIn_done⟩⟩
  | succ above ih => exact fitsIn_chain.mpr ⟨ih, fitsIn_done⟩

/-- What fits in some levels fits in more. -/
theorem FitsIn.mono {s : Symbol} {d : Derivation s} {levels' : Nat} (h : d.FitsIn levels)
    (hle : levels ≤ levels') : d.FitsIn levels' :=
  ⟨h.depth_le.trans hle, h.namesTargets, h.bindsElses⟩

end Raised

end Derivation

/-- The token of a lexeme on the first line. -/
def tokenOf (kind : Kind) (text : String) : Token := ⟨kind, text, 1⟩

/-- The tokens are a primary within so many levels, and it stands for the tree. -/
def IsPrimary (levels : Nat) (tokens : List Token) (node : Node) : Prop :=
  ∃ d : Derivation (.operand 0), d.FitsIn levels ∧ d.tokens = tokens ∧ d.tree = node

namespace IsPrimary

variable {levels levels' : Nat} {tokens left right : List Token} {node lhs rhs : Node}

/-- A numeral is a primary. -/
theorem literal (text : String) :
    IsPrimary 0 [tokenOf .number text]
      (.literal (.number (Number.ofNumeral text)) (some 1)) :=
  ⟨.literal ⟨tokenOf .number text, rfl⟩, Derivation.fitsIn_leaf rfl rfl rfl, rfl, rfl⟩

/-- A name is a primary. -/
theorem reference (name : String) :
    IsPrimary 0 [tokenOf .name name] (.reference name (some 1)) :=
  ⟨.reference ⟨tokenOf .name name, rfl⟩, Derivation.fitsIn_leaf rfl rfl rfl, rfl, rfl⟩

/-- A primary within some levels is one within more. -/
theorem mono (h : IsPrimary levels tokens node) (hle : levels ≤ levels') :
    IsPrimary levels' tokens node := by
  obtain ⟨d, hfits, htokens, htree⟩ := h
  exact ⟨d, hfits.mono hle, htokens, htree⟩

/-- An operator and the parentheses around it need one level. -/
theorem binary (op : Operator) (hlhs : IsPrimary levels left lhs)
    (hrhs : IsPrimary levels right rhs) :
    IsPrimary (levels + 1)
      (tokenOf .openParen "(" ::
        (left ++ tokenOf op.kind op.spelling :: (right ++ [tokenOf .closeParen ")"])))
      (.binary op lhs rhs (some 1)) := by
  obtain ⟨l, hl, rfl, rfl⟩ := hlhs
  obtain ⟨r, hr, rfl, rfl⟩ := hrhs
  have hsign : operatorAt? (rowOf op) (tokenOf op.kind op.spelling).kind = some op :=
    operatorAt?_rowOf op
  obtain ⟨above, habove⟩ : ∃ above, rowOf op + 1 + above = 4 :=
    ⟨3 - rowOf op, by cases op <;> rfl⟩
  obtain ⟨d, hd, htokens, htree⟩ : ∃ d : Derivation (.operand 4), d.FitsIn levels ∧
      d.tokens = l.tokens ++ tokenOf op.kind op.spelling :: r.tokens ∧
      d.tree = .binary op l.tree r.tree (some 1) := by
    rw [← habove]
    exact ⟨.joined hsign l r above, hl.joined hr above, Derivation.tokens_joined above,
      Derivation.tree_joined above⟩
  refine ⟨.group ⟨tokenOf .openParen "(", rfl⟩ (.plain d) ⟨tokenOf .closeParen ")", rfl⟩,
    ?_, ?_, ?_⟩
  · exact Derivation.fitsIn_group.mpr ⟨levels, rfl, Derivation.fitsIn_plain.mpr hd⟩
  · simp [htokens]
  · exact htree

/-- An assignment and the parentheses around it need two levels. -/
theorem assign (name : String) (h : IsPrimary levels tokens node) :
    IsPrimary (levels + 2)
      (tokenOf .openParen "(" :: tokenOf .name name :: tokenOf .assign "=" ::
        (tokens ++ [tokenOf .closeParen ")"]))
      (.assign name node (some 1)) := by
  obtain ⟨d, hd, rfl, rfl⟩ := h
  obtain ⟨target, htarget, htokens, htree⟩ := (reference name).mono (Nat.zero_le (levels + 1))
  refine ⟨.group ⟨tokenOf .openParen "(", rfl⟩
    (.assign (target.raised 4) ⟨tokenOf .assign "=", rfl⟩ (.plain (d.raised 4)))
    ⟨tokenOf .closeParen ")", rfl⟩, ?_, ?_, ?_⟩
  · refine Derivation.fitsIn_group.mpr ⟨levels + 1, rfl, Derivation.fitsIn_assign.mpr
      ⟨?_, htarget.raised 4, levels, rfl, Derivation.fitsIn_plain.mpr (hd.raised 4)⟩⟩
    rw [Derivation.tree_raised, htree]
    rfl
  · simp [htokens]
  · simp [htree, assignment?]

/-- A primary is an expression. -/
theorem exists_expression (h : IsPrimary levels tokens node) :
    ∃ d : Derivation .expression, d.FitsIn levels ∧ d.tokens = tokens ∧ d.tree = node := by
  obtain ⟨d, hfits, rfl, rfl⟩ := h
  exact ⟨.plain (d.raised 4), Derivation.fitsIn_plain.mpr (hfits.raised 4), by simp, by simp⟩

/-- With a semicolon behind it, a primary is a program that evaluates it. -/
theorem exists_program (h : IsPrimary levels tokens node) :
    ∃ d : Derivation .declarations, d.FitsIn levels ∧
      d.tokens = tokens ++ [tokenOf .semicolon ";"] ∧ ∃ line, d.tree = [.evaluate node line] := by
  obtain ⟨d, hfits, rfl, rfl⟩ := h.exists_expression
  refine ⟨.next (.statement (.evaluate d ⟨tokenOf .semicolon ";", rfl⟩)) .empty, ?_, by simp,
    _, rfl⟩
  refine Derivation.fitsIn_next.mpr ⟨?_, Derivation.fitsIn_leaf rfl rfl rfl⟩
  exact Derivation.fitsIn_statement.mpr (Derivation.fitsIn_evaluate.mpr hfits)

end IsPrimary

end Grammar

/-! ## Whole marks -/

namespace Node

/-- The text without the `.0` of whole numbers. -/
def withoutWholeMarks : List Char → List Char
  | '.' :: '0' :: rest => withoutWholeMarks rest
  | c :: rest => c :: withoutWholeMarks rest
  | [] => []

section WholeMarks

variable {c : Char} {text rest : List Char}

/-- A character other than the point is kept. -/
theorem withoutWholeMarks_cons (h : c ≠ '.') :
    withoutWholeMarks (c :: rest) = c :: withoutWholeMarks rest := by
  rw [withoutWholeMarks]
  simp [h]

/-- No mark goes over the end of a text if no zero follows. -/
theorem withoutWholeMarks_append (h : rest.head? ≠ some '0') :
    withoutWholeMarks (text ++ rest) = withoutWholeMarks text ++ withoutWholeMarks rest := by
  fun_induction withoutWholeMarks text with
  | case1 text ih => simp [withoutWholeMarks, ih]
  | case2 c text hmark ih =>
    rw [List.cons_append, withoutWholeMarks, ih, List.cons_append]
    rintro tail rfl heq
    cases text with
    | nil => exact h (by simpa using congrArg List.head? heq)
    | cons d text => simp_all
  | case3 => rfl

/-- A text without points has no marks. -/
theorem withoutWholeMarks_of_not_mem (h : '.' ∉ text) : withoutWholeMarks text = text := by
  induction text with
  | nil => rfl
  | cons c text ih =>
    rw [List.mem_cons, not_or] at h
    rw [withoutWholeMarks_cons (Ne.symm h.1), ih h.2]

end WholeMarks

/-! ## Expressions -/

/-- An expression of variables and whole numbers. A variable has a name as programs have them, and a
number is listed with its digits and `.0`. -/
inductive Readable : Node → Prop where
  | literal {x : Float} {digits : List Char} (hdigits : ∀ c ∈ digits, c.isDigit = true)
      (htext : Number.Style.source.render x = String.ofList digits ++ ".0") (line : SourceLine) :
      Readable (.literal (.number x) line)
  | reference {name : String} (hname : Kind.ofLexeme? name.toList = some .name)
      (line : SourceLine) : Readable (.reference name line)
  | binary (op : Operator) {lhs rhs : Node} (hlhs : Readable lhs) (hrhs : Readable rhs)
      (line : SourceLine) : Readable (.binary op lhs rhs line)
  | assign {name : String} (hname : Kind.ofLexeme? name.toList = some .name) {value : Node}
      (hvalue : Readable value) (line : SourceLine) : Readable (.assign name value line)

/-- How deep parentheses and assigned values stand in each other in the listing. -/
def listedDepth : Node → Nat
  | binary _ lhs rhs _ => max lhs.listedDepth rhs.listedDepth + 1
  | assign _ value _ => value.listedDepth + 2
  | _ => 0

/-- No lexeme would go on with what comes first. -/
def Detached (rest : List Char) : Prop :=
  ∀ c, rest.head? = some c → ∀ kind : Kind, kind.goesOnWith c = false

/-- What begins with a blank, a closing parenthesis or a semicolon is detached. -/
theorem detached_cons {c : Char} (h : c ∈ [' ', ')', ';']) (rest : List Char) :
    Detached (c :: rest) := by
  intro d hhead kind
  obtain rfl : c = d := Option.some.inj hhead
  simp only [List.mem_cons, List.not_mem_nil, or_false] at h
  rcases h with rfl | rfl | rfl <;> cases kind <;> rfl

/-- Without the marks of whole numbers the text is scanned as the tokens. -/
def Scans (text : List Char) (tokens : List Token) : Prop :=
  ∀ found rest, Detached rest →
    TokenList.scan 1 found (withoutWholeMarks text ++ rest) =
      TokenList.scan 1 (tokens.reverse ++ found) rest

section Scans

variable {lexeme text text' : List Char} {tokens tokens' : List Token} {kind : Kind}

/-- A lexeme has no point. -/
theorem point_not_mem (h : Kind.ofLexeme? lexeme = some kind) : '.' ∉ lexeme := by
  intro hmem
  have hc := (Kind.ofLexeme?_eq_some_iff.mp h).forall_mem _ hmem
  exact absurd hc (by decide)

/-- The scanner takes a lexeme that what is behind does not go on with. -/
theorem scan_lexeme (h : Kind.ofLexeme? lexeme = some kind) (found : List Token) {rest : List Char}
    (hnext : ∀ c, rest.head? = some c → kind.goesOnWith c = false) :
    TokenList.scan 1 found (lexeme ++ rest) =
      TokenList.scan 1 (tokenOf kind (String.ofList lexeme) :: found) rest :=
  Segment.scan_append_lexeme ⟨[], lexeme, kind, by simp, h⟩ 1 found hnext

/-- Digits are one lexeme. -/
theorem ofLexeme?_digits {digits : List Char} (hdigits : ∀ c ∈ digits, c.isDigit = true)
    (hne : digits ≠ []) : Kind.ofLexeme? digits = some .number := by
  obtain ⟨first, rest, rfl⟩ := List.exists_cons_of_ne_nil hne
  simp only [List.forall_mem_cons, isDigit_eq_isFigure] at hdigits
  exact Kind.ofLexeme?_eq_some_iff.mpr (.numeral hdigits.1 hdigits.2)

/-- A lexeme is scanned as its token. -/
theorem scans_lexeme (h : Kind.ofLexeme? lexeme = some kind) :
    Scans lexeme [tokenOf kind (String.ofList lexeme)] := by
  intro found rest hrest
  rw [withoutWholeMarks_of_not_mem (point_not_mem h)]
  exact scan_lexeme h found fun c hhead => hrest c hhead kind

/-- A blank in front makes no difference to the tokens. -/
theorem Scans.blank (h : Scans text tokens) : Scans (' ' :: text) tokens := by
  intro found rest hrest
  rw [withoutWholeMarks_cons (by decide), List.cons_append, TokenList.scan_gap _ _ (by decide) rfl]
  exact h found rest hrest

/-- An opening parenthesis in front is scanned as its token. -/
theorem Scans.openParen (h : Scans text tokens) :
    Scans ('(' :: text) (tokenOf .openParen "(" :: tokens) := by
  intro found rest hrest
  have hparen : Kind.ofLexeme? ['('] = some .openParen := by decide
  rw [withoutWholeMarks_cons (by decide), List.cons_append]
  refine (scan_lexeme hparen found fun _ _ => rfl).trans ((h _ rest hrest).trans ?_)
  rw [List.reverse_cons, List.append_assoc]
  rfl

/-- A text that is set off from what stands in front of it is scanned by itself. -/
theorem Scans.append (h : Scans text tokens) {c : Char} (hc : c ∈ [' ', ')', ';'])
    (h' : Scans (c :: text') tokens') : Scans (text ++ c :: text') (tokens ++ tokens') := by
  have hne : c ≠ '.' ∧ c ≠ '0' := by
    simp only [List.mem_cons, List.not_mem_nil, or_false] at hc
    rcases hc with rfl | rfl | rfl <;> decide
  intro found rest hrest
  rw [withoutWholeMarks_append (by simpa using hne.2), List.append_assoc, h found]
  · rw [h' _ rest hrest, List.reverse_append, List.append_assoc]
  · rw [withoutWholeMarks_cons hne.1]
    exact detached_cons hc _

/-- What is read from the whole text, with a semicolon behind it. -/
theorem Scans.ofText (h : Scans text tokens) :
    TokenList.ofText (String.ofList (withoutWholeMarks text) ++ ";") =
      .ok ⟨tokens ++ [tokenOf .semicolon ";"], 1⟩ := by
  have hsemicolon : Scans [';'] [tokenOf .semicolon ";"] := scans_lexeme (by decide)
  have hall := h.append (by decide) hsemicolon [] [] (by simp [Detached])
  rw [withoutWholeMarks_append (by simp), List.append_nil, List.append_nil, TokenList.scan_nil,
    List.reverse_reverse] at hall
  rw [TokenList.ofText, String.toList_append, String.toList_ofList]
  exact hall

end Scans

/-- The expression is listed as the text. The text is scanned as the tokens, and they are a primary
for the tree, which is that of the expression on other lines. -/
structure ReadsBack (e : Node) (text : List Char) (tokens : List Token) (node : Node) : Prop where
  listing : ∀ indent, (e.listing indent).toList = text
  scans : Scans text tokens
  isPrimary : IsPrimary e.listedDepth tokens node
  same : node.withoutLines = e.withoutLines

section ReadsBack

variable {e lhs rhs value node left right : Node} {text leftText rightText : List Char}
  {tokens leftTokens rightTokens : List Token} {name : String}

/-- A number that is listed with its digits and `.0` is read back. -/
theorem readsBack_literal {x : Float} {digits : List Char}
    (hdigits : ∀ c ∈ digits, c.isDigit = true)
    (htext : Number.Style.source.render x = String.ofList digits ++ ".0") (line : SourceLine) :
    (literal (.number x) line).ReadsBack (digits ++ ['.', '0'])
      [tokenOf .number (String.ofList digits)] (.literal (.number x) (some 1)) := by
  obtain ⟨hne, hvalue⟩ := Number.ofNumeral_of_render hdigits htext
  have hlexeme := ofLexeme?_digits hdigits hne
  refine ⟨fun indent => ?_, fun found rest hrest => ?_, ?_, rfl⟩
  · rw [listing_literal, Value.sourceText, htext]
    simp
  · rw [withoutWholeMarks_append (by simp), withoutWholeMarks_of_not_mem (point_not_mem hlexeme),
      List.append_assoc]
    exact scan_lexeme hlexeme found fun c hhead => hrest c hhead .number
  · rw [← hvalue]
    exact .literal (String.ofList digits)

/-- A variable is read back. -/
theorem readsBack_reference (hname : Kind.ofLexeme? name.toList = some .name) (line : SourceLine) :
    (reference name line).ReadsBack name.toList [tokenOf .name name]
      (.reference name (some 1)) where
  listing indent := by rw [listing_reference]
  scans := by simpa using scans_lexeme hname
  isPrimary := .reference name
  same := rfl

/-- The spelling of an operator is the lexeme of its kind. -/
theorem ofLexeme?_spelling (op : Operator) :
    Kind.ofLexeme? op.spelling.toList = some op.kind := by
  cases op <;> decide

/-- A closing parenthesis is scanned as its token. -/
theorem scans_closeParen : Scans [')'] [tokenOf .closeParen ")"] :=
  scans_lexeme (by decide)

/-- An operation is read back if both its sides are. -/
theorem readsBack_binary (op : Operator) (hlhs : lhs.ReadsBack leftText leftTokens left)
    (hrhs : rhs.ReadsBack rightText rightTokens right) (line : SourceLine) :
    (binary op lhs rhs line).ReadsBack
      ('(' :: (leftText ++ ' ' :: (op.spelling.toList ++ ' ' :: (rightText ++ [')']))))
      (tokenOf .openParen "(" ::
        (leftTokens ++ tokenOf op.kind op.spelling :: (rightTokens ++ [tokenOf .closeParen ")"])))
      (.binary op left right (some 1)) where
  listing indent := by
    rw [listing_binary]
    simp [hlhs.listing, hrhs.listing]
  scans := by
    have hop : Scans op.spelling.toList [tokenOf op.kind op.spelling] := by
      simpa using scans_lexeme (ofLexeme?_spelling op)
    have hright := hrhs.scans.append (by decide) scans_closeParen
    exact (hlhs.scans.append (by decide) (hop.append (by decide) hright.blank).blank).openParen
  isPrimary :=
    .binary op (hlhs.isPrimary.mono (le_max_left _ _)) (hrhs.isPrimary.mono (le_max_right _ _))
  same := by rw [withoutLines, withoutLines, hlhs.same, hrhs.same]

/-- An assignment is read back if its value is. -/
theorem readsBack_assign (hname : Kind.ofLexeme? name.toList = some .name)
    (hvalue : value.ReadsBack text tokens node) (line : SourceLine) :
    (assign name value line).ReadsBack
      ('(' :: (name.toList ++ ' ' :: ('=' :: ' ' :: (text ++ [')']))))
      (tokenOf .openParen "(" :: tokenOf .name name :: tokenOf .assign "=" ::
        (tokens ++ [tokenOf .closeParen ")"]))
      (.assign name node (some 1)) where
  listing indent := by
    rw [listing_assign]
    simp [hvalue.listing]
  scans := by
    have hword : Scans name.toList [tokenOf .name name] := by simpa using scans_lexeme hname
    have hmark : Scans ['='] [tokenOf .assign "="] := scans_lexeme (by decide)
    have hright := hvalue.scans.append (by decide) scans_closeParen
    exact (hword.append (by decide) (hmark.append (by decide) hright.blank).blank).openParen
  isPrimary := .assign name hvalue.isPrimary
  same := by rw [withoutLines, withoutLines, hvalue.same]

/-- The listing of an expression gives back the expression. -/
theorem Readable.exists_readsBack (h : e.Readable) :
    ∃ text tokens node, e.ReadsBack text tokens node := by
  induction h with
  | literal hdigits htext line => exact ⟨_, _, _, readsBack_literal hdigits htext line⟩
  | reference hname line => exact ⟨_, _, _, readsBack_reference hname line⟩
  | binary op _ _ line ihlhs ihrhs =>
    obtain ⟨_, _, _, hlhs⟩ := ihlhs
    obtain ⟨_, _, _, hrhs⟩ := ihrhs
    exact ⟨_, _, _, readsBack_binary op hlhs hrhs line⟩
  | assign hname _ line ih =>
    obtain ⟨_, _, _, hvalue⟩ := ih
    exact ⟨_, _, _, readsBack_assign hname hvalue line⟩

/-- There is one node more on a path than there are levels, at most. -/
theorem Readable.height_le (h : e.Readable) : e.height ≤ e.listedDepth + 1 := by
  induction h with
  | literal | reference => simp [listedDepth]
  | binary _ _ _ _ ihlhs ihrhs =>
    simp only [height, listedDepth]
    omega
  | assign _ _ _ ih =>
    simp only [height, listedDepth]
    omega

end ReadsBack

end Node

/-! ## Programs -/

open Node

/-- The listing of an expression that is not too deep, without the `.0` of its numbers and with a
semicolon behind it, is a program of one statement, which evaluates this expression. -/
theorem Program.ofText_listing {e : Node} (h : e.Readable) (hdepth : e.listedDepth ≤ maxNesting)
    (indent : Int) (file : Option String) :
    ∃ text program node line, e.listing? .standard indent = some text ∧
      Program.ofText file (String.ofList (withoutWholeMarks text.toList) ++ ";") = .ok program ∧
      program.errors = [] ∧ program.statements = [.evaluate node line] ∧
      node.withoutLines = e.withoutLines := by
  obtain ⟨text, tokens, node, hback⟩ := h.exists_readsBack
  obtain ⟨d, hfits, htokens, line, htree⟩ := hback.isPrimary.exists_program
  obtain ⟨hstatements, herrors⟩ :
      (ofTokens file ⟨tokens ++ [tokenOf .semicolon ";"], 1⟩).statements = d.tree ∧
        (ofTokens file ⟨tokens ++ [tokenOf .semicolon ";"], 1⟩).errors = [] :=
    ofTokens_of_derivation (hfits.mono hdepth) file htokens
  have hroom : e.height ≤ 1000 := by
    have hlimit : maxNesting + 1 ≤ 1000 := by decide
    have hheight := h.height_le
    omega
  refine ⟨e.listing indent, _, node, line, listing?_of_height hroom indent, ?_, herrors,
    hstatements.trans htree, hback.same⟩
  rw [hback.listing]
  exact ofText_of_tokens file hback.scans.ofText

/-- An assignment of an assignment, and so on. -/
def Node.assignments : Nat → Node
  | 0 => .literal (.number (Number.ofNat 7)) none
  | n + 1 => .assign "iff" (assignments n) none

/-- Assignments of assignments are readable, however many there are. -/
theorem Node.readable_assignments (n : Nat) : (assignments n).Readable := by
  induction n with
  | zero => exact @Readable.literal _ ['7'] (by simp) (by decide +kernel) none
  | succ n ih => exact .assign (by decide) ih none

/-- An expression that needs all levels. -/
def Node.deepestReadable : Node :=
  .binary .subtract (.reference "a" none)
    (.binary .equal (assignments 23) (.literal (.number (Number.ofNat 100)) none) none) none

/-- The expression that needs all levels is readable. -/
theorem Node.readable_deepestReadable : deepestReadable.Readable :=
  .binary _ (.reference (by decide) _) (.binary _ (readable_assignments 23)
    (@Readable.literal _ ['1', '0', '0'] (by simp) (by decide +kernel) _) _) _

/-- All levels are used up, and the expression is read. -/
theorem Program.ofText_listing_deepest :
    deepestReadable.Readable ∧ deepestReadable.listedDepth = maxNesting ∧
      ∃ text program node line, deepestReadable.listing? .standard 0 = some text ∧
        Program.ofText none (String.ofList (withoutWholeMarks text.toList) ++ ";") = .ok program ∧
        program.errors = [] ∧ program.statements = [.evaluate node line] ∧
        node.withoutLines = deepestReadable.withoutLines :=
  ⟨readable_deepestReadable, by decide,
    Program.ofText_listing readable_deepestReadable (by decide) 0 none⟩

end ScriptKit
