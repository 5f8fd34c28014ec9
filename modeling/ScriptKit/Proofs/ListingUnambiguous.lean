import ScriptKit.Proofs.ListingRoundTrip

/-!
# Listings are unambiguous

A listing of a statement tells the statement: no other one that can be read is listed so, whatever
the indentation. The margins are not needed for that, and they cannot be, as there are none where
the indentation is negative.

A listing differs from a program text in two things: numbers are written as source-like text has
them, and conditions end with their row instead of having parentheses. Both can be put right in the
words of the listing, one after the other, and what results are the tokens of a derivation of the
statement. As tokens have only one derivation, there is only one statement.
-/

set_option autoImplicit false

namespace ScriptKit

open Grammar Token

namespace Listing

/-! ## The words of a listing -/

/-- Does the character end a word in a listing? -/
def breaksWord (c : Char) : Bool := c ∈ [' ', '\n', '(', ')', ';', '{', '}']

/-- The word that is at an end. -/
def endWord (word : List Char) : List (List Char) := if word = [] then [] else [word]

/-- The words of a text behind the beginning of one. All that ends a word is a word of its own, but
for blanks. -/
def wordsFrom (word : List Char) : List Char → List (List Char)
  | [] => endWord word
  | c :: rest =>
    if breaksWord c then endWord word ++ (if c = ' ' then [] else [[c]]) ++ wordsFrom [] rest
    else wordsFrom (word ++ [c]) rest

/-- The words of a text. -/
def words (text : List Char) : List (List Char) := wordsFrom [] text

/-- No word goes on in the text. -/
def Stopped (rest : List Char) : Prop := ∀ c, rest.head? = some c → breaksWord c = true

section Words

variable {c : Char} {word rest : List Char}

/-- No word goes on in what begins with the end of a word. -/
theorem stopped_cons (h : breaksWord c = true) (rest : List Char) : Stopped (c :: rest) := by
  intro d hhead
  exact Option.some.inj hhead ▸ h

/-- Letters and digits do not end a word. -/
theorem breaksWord_eq_false (h : (isLetter c || isFigure c) = true) : breaksWord c = false := by
  by_contra hbreaks
  simp only [Bool.not_eq_false, breaksWord, decide_eq_true_eq, List.mem_cons, List.not_mem_nil,
    or_false] at hbreaks
  rcases hbreaks with rfl | rfl | rfl | rfl | rfl | rfl | rfl <;> revert h <;> decide

/-- Characters that end no word go on with the one that is begun. -/
theorem wordsFrom_append (front : List Char) (h : ∀ c ∈ word, breaksWord c = false) :
    wordsFrom front (word ++ rest) = wordsFrom (front ++ word) rest := by
  induction word generalizing front with
  | nil => simp
  | cons c word ih =>
    rw [List.forall_mem_cons] at h
    simp [wordsFrom, h.1, ih _ h.2]

/-- Characters that end no word are a word if it stops behind them. -/
theorem words_append (hne : word ≠ []) (h : ∀ c ∈ word, breaksWord c = false)
    (hrest : Stopped rest) : words (word ++ rest) = word :: words rest := by
  rw [words, wordsFrom_append _ h, List.nil_append]
  cases rest with
  | nil => simp [wordsFrom, words, endWord, hne]
  | cons c rest => simp [wordsFrom, words, endWord, hne, hrest c rfl]

/-- A blank in front makes no difference to the words. -/
theorem words_blank (rest : List Char) : words (' ' :: rest) = words rest := by
  simp [words, wordsFrom, endWord, breaksWord]

/-- Any other end of a word is a word of its own. -/
theorem words_break (h : breaksWord c = true) (hne : c ≠ ' ') (rest : List Char) :
    words (c :: rest) = [c] :: words rest := by
  simp [words, wordsFrom, endWord, h, hne]

end Words

/-! ## The tokens of a listing -/

/-- A numeral for the number that is written so in a listing. -/
noncomputable def numeralOf (text : String) : String :=
  String.ofList (Number.decimalDigits (Function.invFunOn
    (fun n => Number.Style.source.render (Number.ofNat n))
    {n | (Number.ofNat n).isFinite = true} text))

/-- The token of a word. Words that begin with a digit are numbers. -/
noncomputable def tokenOfWord (word : List Char) : Token :=
  if word.head?.any Char.isDigit then tokenOf .number (numeralOf (String.ofList word))
  else tokenOf ((Kind.ofLexeme? word).getD .name) (String.ofList word)

/-- Does a condition follow the token? -/
def hasCondition (token : Token) : Bool := token.kind = .ifWord || token.kind = .whileWord

/-- The parenthesis that ends a condition. -/
def endCondition (inCondition : Bool) : List Token :=
  if inCondition then [tokenOf .closeParen ")"] else []

/-- The tokens of words, with parentheses around each condition, which ends with its row. -/
noncomputable def retold (inCondition : Bool) : List (List Char) → List Token
  | [] => endCondition inCondition
  | word :: rest =>
    if word = ['\n'] then endCondition inCondition ++ retold false rest
    else if hasCondition (tokenOfWord word) then
      tokenOfWord word :: tokenOf .openParen "(" :: retold true rest
    else tokenOfWord word :: retold inCondition rest

/-- The text has these tokens, where it stands in a condition or where it does not. -/
def Tells (inCondition : Bool) (text : List Char) (tokens : List Token) : Prop :=
  ∀ rest, Stopped rest →
    retold inCondition (words (text ++ rest)) = tokens ++ retold inCondition (words rest)

/-- A word that is a lexeme, but no numeral, has the token of that lexeme. -/
theorem tokenOfWord_lexeme {word : List Char} {kind : Kind} (h : Kind.ofLexeme? word = some kind)
    (hkind : kind ≠ .number) : tokenOfWord word = tokenOf kind (String.ofList word) := by
  have hdigit : word.head?.any Char.isDigit = false := by
    cases Kind.ofLexeme?_eq_some_iff.mp h with
    | numeral hfirst hrest => exact absurd rfl hkind
    | word hfirst hrest =>
      have hfigure := isFigure_eq_false_of_isLetter hfirst
      rw [← isDigit_eq_isFigure] at hfigure
      exact hfigure
    | mark hmark =>
      have hall : ∀ mark ∈ Kind.marks, mark.1.head?.any Char.isDigit = false := by decide
      exact hall _ hmark
  rw [tokenOfWord, hdigit, h]
  rfl

section Tells

variable {inCondition : Bool} {c : Char} {word text text' : List Char} {token : Token}
  {tokens tokens' : List Token}

/-- The empty text has no tokens. -/
theorem tells_nil : Tells inCondition [] [] := fun _ _ => rfl

/-- There is nothing in an empty text. -/
theorem Tells.eq_nil (h : Tells inCondition [] tokens) : tokens = [] := by
  have hempty := h [] (by simp [Stopped])
  rwa [List.append_nil, List.self_eq_append_left] at hempty

/-- A word has its token, unless a condition follows it. -/
theorem tells_word (hne : word ≠ []) (h : ∀ c ∈ word, breaksWord c = false)
    (htoken : tokenOfWord word = token) (hplain : hasCondition token = false) :
    Tells inCondition word [token] := by
  intro rest hrest
  have hbreak : word ≠ ['\n'] := by
    rintro rfl
    exact absurd (h '\n' (by simp)) (by decide)
  rw [words_append hne h hrest, retold, if_neg hbreak, htoken, hplain]
  rfl

/-- Texts have the tokens of both if a word ends between them. -/
theorem Tells.append (h : Tells inCondition text tokens) (hc : breaksWord c = true)
    (h' : Tells inCondition (c :: text') tokens') :
    Tells inCondition (text ++ c :: text') (tokens ++ tokens') := by
  intro rest hrest
  rw [List.append_assoc, List.append_assoc]
  refine (h _ (stopped_cons hc (text' ++ rest))).trans ?_
  exact congrArg (tokens ++ ·) (h' rest hrest)

/-- A blank in front makes no difference to the tokens. -/
theorem Tells.blank (h : Tells inCondition text tokens) :
    Tells inCondition (' ' :: text) tokens := by
  intro rest hrest
  rw [List.cons_append, words_blank]
  exact h rest hrest

/-- A margin in front makes no difference to the tokens. -/
theorem Tells.margin (indent : Int) (h : Tells inCondition text tokens) :
    Tells inCondition ((Node.margin indent).toList ++ text) tokens := by
  rw [Node.margin, String.toList_ofList]
  induction (2 * indent).toNat with
  | zero => exact h
  | succ n ih => exact ih.blank

/-- The marks that need no blank next to them. -/
def closeMarks : List (Char × Kind) :=
  [('(', .openParen), (')', .closeParen), (';', .semicolon), ('{', .openBrace), ('}', .closeBrace)]

/-- A mark in front that needs no blank next to it has its token. -/
theorem Tells.mark {kind : Kind} (hmark : (c, kind) ∈ closeMarks)
    (h : Tells inCondition text tokens) :
    Tells inCondition (c :: text) (tokenOf kind (String.ofList [c]) :: tokens) := by
  obtain ⟨hbreaks, hblank, hline, hlexeme, hnumber, hplain⟩ : breaksWord c = true ∧ c ≠ ' ' ∧
      c ≠ '\n' ∧ Kind.ofLexeme? [c] = some kind ∧ kind ≠ .number ∧
      hasCondition (tokenOf kind (String.ofList [c])) = false := by
    simp only [closeMarks, List.mem_cons, Prod.mk.injEq, List.not_mem_nil, or_false] at hmark
    rcases hmark with ⟨rfl, rfl⟩ | ⟨rfl, rfl⟩ | ⟨rfl, rfl⟩ | ⟨rfl, rfl⟩ | ⟨rfl, rfl⟩ <;> decide
  intro rest hrest
  rw [List.cons_append, words_break hbreaks hblank, retold, if_neg (by simpa using hline),
    tokenOfWord_lexeme hlexeme hnumber, hplain]
  simp [h rest hrest]

/-- An opening parenthesis in front has its token. -/
theorem Tells.openParen (h : Tells inCondition text tokens) :
    Tells inCondition ('(' :: text) (tokenOf .openParen "(" :: tokens) :=
  h.mark (by simp [closeMarks])

/-- A closing parenthesis has its token. -/
theorem tells_closeParen : Tells inCondition [')'] [tokenOf .closeParen ")"] :=
  tells_nil.mark (by simp [closeMarks])

/-- An opening brace in front has its token. -/
theorem Tells.openBrace (h : Tells inCondition text tokens) :
    Tells inCondition ('{' :: text) (tokenOf .openBrace (String.ofList ['{']) :: tokens) :=
  h.mark (by simp [closeMarks])

/-- A closing brace has its token. -/
theorem tells_closeBrace :
    Tells inCondition ['}'] [tokenOf .closeBrace (String.ofList ['}'])] :=
  tells_nil.mark (by simp [closeMarks])

/-- A semicolon has its token. -/
theorem tells_semicolon : Tells inCondition [';'] [tokenOf .semicolon ";"] :=
  tells_nil.mark (by simp [closeMarks])

/-- Outside of conditions a line feed in front makes no difference to the tokens. -/
theorem Tells.newline (h : Tells false text tokens) : Tells false ('\n' :: text) tokens := by
  intro rest hrest
  rw [List.cons_append, words_break (by decide) (by decide), retold, if_pos rfl]
  exact h rest hrest

/-- A condition ends with its row. -/
theorem Tells.condition {word : String} {kind : Kind}
    (hword : (word, kind) ∈ [("if", Kind.ifWord), ("while", .whileWord)])
    (h : Tells true text tokens) (h' : Tells false text' tokens') :
    Tells false (word.toList ++ ' ' :: (text ++ '\n' :: text'))
      (tokenOf kind word :: tokenOf .openParen "(" ::
        (tokens ++ tokenOf .closeParen ")" :: tokens')) := by
  obtain ⟨hne, hbreaks, hline, htoken, hcondition⟩ : word.toList ≠ [] ∧
      (∀ c ∈ word.toList, breaksWord c = false) ∧ word.toList ≠ ['\n'] ∧
      tokenOfWord word.toList = tokenOf kind word ∧ hasCondition (tokenOf kind word) = true := by
    simp only [List.mem_cons, Prod.mk.injEq, List.not_mem_nil, or_false] at hword
    rcases hword with ⟨rfl, rfl⟩ | ⟨rfl, rfl⟩ <;>
      exact ⟨by decide, by simp [breaksWord], by decide,
        tokenOfWord_lexeme (by decide) (by decide), rfl⟩
  intro rest hrest
  have hend : retold true (words ('\n' :: (text' ++ rest))) =
      tokenOf .closeParen ")" :: (tokens' ++ retold false (words rest)) := by
    rw [words_break (by decide) (by decide), retold, if_pos rfl, h' rest hrest]
    rfl
  simp only [List.append_assoc, List.cons_append]
  rw [words_append hne hbreaks (stopped_cons (by decide) _), words_blank, retold, if_neg hline,
    htoken, if_pos hcondition, h _ (stopped_cons (by decide) _), hend]

end Tells

/-! ## Expressions -/

/-- A finite whole number is read back from the numeral that its listing tells. -/
theorem ofNumeral_numeralOf {n : Nat} (hfinite : (Number.ofNat n).isFinite = true) :
    Number.ofNumeral (numeralOf (Number.Style.source.render (Number.ofNat n))) =
      Number.ofNat n := by
  have hexists : ∃ k ∈ {n | (Number.ofNat n).isFinite = true},
      Number.Style.source.render (Number.ofNat k) = Number.Style.source.render (Number.ofNat n) :=
    ⟨n, hfinite, rfl⟩
  obtain ⟨v, hv⟩ := Number.exists_readsAs_ofNat hfinite
  obtain ⟨w, hw⟩ := Number.exists_readsAs_ofNat (Function.invFunOn_mem hexists)
  rw [Number.ofNumeral, numeralOf, String.toList_ofList, Number.naturalOfDigits_decimalDigits]
  exact hw.eq_of_render_eq hv (Function.invFunOn_eq hexists)

/-- A number is one word of a listing. -/
theorem tells_number {inCondition : Bool} {n : Nat} (hfinite : (Number.ofNat n).isFinite = true) :
    Tells inCondition (Number.Style.source.render (Number.ofNat n)).toList
      [tokenOf .number (numeralOf (Number.Style.source.render (Number.ofNat n)))] := by
  obtain ⟨v, hv⟩ := Number.exists_readsAs_ofNat hfinite
  obtain ⟨s, htext, -⟩ := hv.exists_spelling
  obtain ⟨c, others, hcons, hdigit⟩ := s.exists_text_eq_cons
  refine tells_word (by simp [htext, hcons]) (fun d hmem => ?_) ?_ rfl
  · rw [htext] at hmem
    rcases s.isDigit_of_mem_text hmem with hd | hd
    · rw [isDigit_eq_isFigure] at hd
      exact breaksWord_eq_false (by simp [hd])
    · simp only [List.mem_cons, List.not_mem_nil, or_false] at hd
      rcases hd with rfl | rfl | rfl | rfl <;> rfl
  · have hhead : (Number.Style.source.render (Number.ofNat n)).toList.head?.any Char.isDigit =
        true := by
      rw [htext, hcons]
      exact hdigit
    rw [tokenOfWord, if_pos hhead, String.ofList_toList]

/-- Characters of a name do not end a word. -/
theorem breaksWord_of_mem_name {name : List Char} (h : Kind.ofLexeme? name = some .name) :
    ∀ c ∈ name, breaksWord c = false := by
  have hlexeme := Kind.ofLexeme?_eq_some_iff.mp h
  generalize hkind : Kind.name = kind at hlexeme
  cases hlexeme with
  | numeral => cases hkind
  | word hfirst hrest =>
    rw [List.forall_mem_cons]
    exact ⟨breaksWord_eq_false (by simp [hfirst]), fun c hmem => breaksWord_eq_false (hrest c hmem)⟩
  | mark hmark =>
    have hall : ∀ mark ∈ Kind.marks, Kind.name ≠ mark.2 := by decide
    exact absurd hkind (hall _ hmark)

/-- A name has its token. -/
theorem tells_name {inCondition : Bool} {name : String}
    (h : Kind.ofLexeme? name.toList = some .name) :
    Tells inCondition name.toList [tokenOf .name name] := by
  refine tells_word ?_ (breaksWord_of_mem_name h) ?_ rfl
  · intro hnil
    rw [hnil] at h
    cases h
  · rw [tokenOfWord_lexeme h (by decide), String.ofList_toList]

/-- An operator has its token. -/
theorem tells_operator {inCondition : Bool} (op : Operator) :
    Tells inCondition op.spelling.toList [tokenOf op.kind op.spelling] := by
  refine tells_word ?_ ?_ ?_ ?_
  · cases op <;> decide
  · cases op <;> simp [Operator.spelling, breaksWord]
  · rw [tokenOfWord_lexeme (Node.ofLexeme?_spelling op) (by cases op <;> decide),
      String.ofList_toList]
  · cases op <;> rfl

/-- The sign of an assignment has its token. -/
theorem tells_assign {inCondition : Bool} : Tells inCondition ['='] [tokenOf .assign "="] :=
  tells_word (by decide) (by simp [breaksWord]) (tokenOfWord_lexeme (by decide) (by decide)) rfl

end Listing

namespace Node

/-- An expression of a program: numerals, variables, operators and assignments. -/
inductive IsExpression : Node → Prop where
  | literal (n : Nat) (line : SourceLine) : IsExpression (.literal (.number (Number.ofNat n)) line)
  | reference {name : String} (hname : Kind.ofLexeme? name.toList = some .name)
      (line : SourceLine) : IsExpression (.reference name line)
  | binary (op : Operator) {lhs rhs : Node} (hlhs : IsExpression lhs) (hrhs : IsExpression rhs)
      (line : SourceLine) : IsExpression (.binary op lhs rhs line)
  | assign {name : String} (hname : Kind.ofLexeme? name.toList = some .name) {value : Node}
      (hvalue : IsExpression value) (line : SourceLine) : IsExpression (.assign name value line)

mutual

/-- The numbers that are written out in a tree. -/
@[simp] def numbers : Node → List Float
  | literal (.number x) _ => [x]
  | literal _ _ | reference .. | declare .. | skipped .. | unknown .. => []
  | binary _ lhs rhs _ => lhs.numbers ++ rhs.numbers
  | assign _ value _ => value.numbers
  | evaluate expression _ => expression.numbers
  | define _ initial _ => initial.numbers
  | print expression _ => expression.numbers
  | ifThen condition thenBranch _ => condition.numbers ++ thenBranch.numbers
  | ifElse condition thenBranch elseBranch _ =>
    condition.numbers ++ thenBranch.numbers ++ elseBranch.numbers
  | loop condition body _ => condition.numbers ++ body.numbers
  | block statements _ => numbersOf statements

/-- The numbers that are written out in trees. -/
@[simp] def numbersOf : List Node → List Float
  | [] => []
  | first :: rest => first.numbers ++ numbersOf rest

end

/-- The numbers in trees are those in each of them, in order. -/
theorem numbersOf_eq_flatMap (nodes : List Node) : numbersOf nodes = nodes.flatMap numbers := by
  induction nodes with
  | nil => rfl
  | cons first rest ih => rw [numbersOf, ih, List.flatMap_cons]

/-- All numbers that are written out are finite. -/
def HasFiniteNumbers (node : Node) : Prop := ∀ x ∈ node.numbers, x.isFinite = true

open Listing

/-- The listing of an expression tells a primary. -/
theorem IsExpression.exists_isPrimary {e : Node} (h : e.IsExpression) (hfinite : e.HasFiniteNumbers)
    (indent : Int) :
    ∃ levels tokens node, IsPrimary levels tokens node ∧ node.withoutLines = e.withoutLines ∧
      ∀ inCondition, Tells inCondition (e.listing indent).toList tokens := by
  induction h generalizing indent with
  | literal n line =>
    have hnumber : (Number.ofNat n).isFinite = true := hfinite _ (by simp)
    refine ⟨0, _, _, .literal (numeralOf (Number.Style.source.render (Number.ofNat n))), ?_,
      fun inCondition => ?_⟩
    · rw [ofNumeral_numeralOf hnumber]
      rfl
    · rw [listing_literal]
      exact tells_number hnumber
  | @reference name hname line =>
    refine ⟨0, _, _, .reference name, rfl, fun inCondition => ?_⟩
    rw [listing_reference]
    exact tells_name hname
  | @binary op lhs rhs hlhs hrhs line ihlhs ihrhs =>
    simp only [HasFiniteNumbers, numbers, List.forall_mem_append] at hfinite
    obtain ⟨n, left, l, hl, hsame, hleft⟩ := ihlhs hfinite.1 0
    obtain ⟨n', right, r, hr, hsame', hright⟩ := ihrhs hfinite.2 0
    refine ⟨_, _, _, .binary op (hl.mono (le_max_left n n')) (hr.mono (le_max_right n n')), ?_,
      fun inCondition => ?_⟩
    · rw [withoutLines, withoutLines, hsame, hsame']
    · have htext : ((Node.binary op lhs rhs line).listing indent).toList =
          '(' :: ((lhs.listing 0).toList ++
            ' ' :: (op.spelling.toList ++ ' ' :: ((rhs.listing 0).toList ++ [')']))) := by
        simp [listing_binary]
      have hclose := (hright inCondition).append (by decide) tells_closeParen
      have hop := (tells_operator op).append (by decide) hclose.blank
      rw [htext]
      exact ((hleft inCondition).append (by decide) hop.blank).openParen
  | @assign name hname value hvalue line ih =>
    obtain ⟨n, tokens, node, hprimary, hsame, htells⟩ := ih hfinite 0
    refine ⟨_, _, _, .assign name hprimary, ?_, fun inCondition => ?_⟩
    · rw [withoutLines, withoutLines, hsame]
    · have htext : ((Node.assign name value line).listing indent).toList =
          '(' :: (name.toList ++ ' ' :: (['='] ++ ' ' :: ((value.listing 0).toList ++ [')']))) := by
        simp [listing_assign]
      have hclose := (htells inCondition).append (by decide) tells_closeParen
      have hassigned := tells_assign.append (by decide) hclose.blank
      rw [htext]
      exact ((tells_name hname).append (by decide) hassigned.blank).openParen

/-- The listing of an expression tells a derivation of it. -/
theorem IsExpression.exists_derivation {e : Node} (h : e.IsExpression)
    (hfinite : e.HasFiniteNumbers) :
    ∃ d : Derivation .expression, d.bindsElses = true ∧
      Node.withoutLines d.tree = e.withoutLines ∧
      ∀ inCondition, Tells inCondition (e.listing 0).toList d.tokens := by
  obtain ⟨levels, tokens, node, hprimary, hsame, htells⟩ := h.exists_isPrimary hfinite 0
  obtain ⟨d, hfits, rfl, rfl⟩ := hprimary.exists_expression
  exact ⟨d, hfits.bindsElses, hsame, htells⟩

/-! ## Statements -/

/-- Does the statement end in an `if` without an `else`? -/
def endsOpen : Node → Bool
  | ifThen .. => true
  | ifElse _ _ elseBranch _ => elseBranch.endsOpen
  | loop _ body _ => body.endsOpen
  | _ => false

/-- A statement ends open if its derivation does. -/
theorem endsOpen_tree : (d : Derivation .statement) → Node.endsOpen d.tree = d.endsOpen
  | .ifElse _ _ _ _ _ _ elseBranch => endsOpen_tree elseBranch
  | .loop _ _ _ _ body => endsOpen_tree body
  | .ifThen .. | .print .. | .block .. | .evaluate .. => rfl

/-- Whether a statement ends open does not depend on its lines. -/
theorem endsOpen_withoutLines : (node : Node) → node.withoutLines.endsOpen = node.endsOpen
  | ifElse _ _ elseBranch _ => endsOpen_withoutLines elseBranch
  | loop _ body _ => endsOpen_withoutLines body
  | ifThen .. | literal .. | reference .. | binary .. | assign .. | evaluate .. | declare ..
  | define .. | print .. | block .. | skipped .. | unknown .. => rfl

/-- A statement of a program, or a declaration where those are allowed. No branch in front of an
`else` ends in an `if` that could take it. -/
inductive IsStatement : Bool → Node → Prop where
  | evaluate (declares : Bool) {value : Node} (hvalue : value.IsExpression) (line : SourceLine) :
      IsStatement declares (.evaluate value line)
  | print (declares : Bool) {value : Node} (hvalue : value.IsExpression) (line : SourceLine) :
      IsStatement declares (.print value line)
  | ifThen (declares : Bool) {condition thenBranch : Node} (hcondition : condition.IsExpression)
      (hthen : IsStatement false thenBranch) (line : SourceLine) :
      IsStatement declares (.ifThen condition thenBranch line)
  | ifElse (declares : Bool) {condition thenBranch elseBranch : Node}
      (hcondition : condition.IsExpression) (hthen : IsStatement false thenBranch)
      (hopen : thenBranch.endsOpen = false) (helse : IsStatement false elseBranch)
      (line : SourceLine) : IsStatement declares (.ifElse condition thenBranch elseBranch line)
  | loop (declares : Bool) {condition body : Node} (hcondition : condition.IsExpression)
      (hbody : IsStatement false body) (line : SourceLine) :
      IsStatement declares (.loop condition body line)
  | block (declares : Bool) {statements : List Node}
      (h : ∀ statement ∈ statements, IsStatement true statement) (line : SourceLine) :
      IsStatement declares (.block statements line)
  | declare {name : String} (hname : Kind.ofLexeme? name.toList = some .name) (line : SourceLine) :
      IsStatement true (.declare name line)
  | define {name : String} (hname : Kind.ofLexeme? name.toList = some .name) {initial : Node}
      (hinitial : initial.IsExpression) (line : SourceLine) :
      IsStatement true (.define name initial line)

/-- The listing of the statement tells the derivation, which stands for the same statement. -/
structure ToldBy (statement : Node) (indent : Int) (d : Derivation .declaration) : Prop where
  bindsElses : d.bindsElses = true
  same : Node.withoutLines d.tree = statement.withoutLines
  tells : Tells false (statement.listing indent).toList d.tokens

section ToldBy

variable {indent : Int} {line : SourceLine} {name : String}
  {value condition thenBranch elseBranch body : Node} {statements : List Node}

/-- A keyword that no condition follows has its token. -/
theorem tells_keyword {inCondition : Bool} {word : String} {kind : Kind}
    (h : (word, kind) ∈ [("var", Kind.varWord), ("print", .printWord), ("else", .elseWord)]) :
    Tells inCondition word.toList [tokenOf kind word] := by
  simp only [List.mem_cons, Prod.mk.injEq, List.not_mem_nil, or_false] at h
  rcases h with ⟨rfl, rfl⟩ | ⟨rfl, rfl⟩ | ⟨rfl, rfl⟩ <;>
    exact tells_word (by decide) (by simp [breaksWord])
      (tokenOfWord_lexeme (by decide) (by decide)) rfl

/-- A derivation of a branch ends in an open `if` where the branch does. -/
theorem ToldBy.endsOpen_eq {inner : Derivation .statement} {statement : Node}
    (h : statement.ToldBy indent (.statement inner)) : inner.endsOpen = statement.endsOpen := by
  have hsame : inner.tree.withoutLines = statement.withoutLines := h.same
  rw [← endsOpen_tree, ← endsOpen_withoutLines, hsame, endsOpen_withoutLines]

/-- The listing of an expression statement tells a derivation of it. -/
theorem exists_toldBy_evaluate (hvalue : value.IsExpression)
    (hfinite : (evaluate value line).HasFiniteNumbers) (indent : Int) :
    ∃ inner, (evaluate value line).ToldBy indent (.statement inner) := by
  obtain ⟨d, helses, hsame, htells⟩ := hvalue.exists_derivation hfinite
  refine ⟨.evaluate d ⟨tokenOf .semicolon ";", rfl⟩, helses, ?_, ?_⟩
  · simp [hsame]
  · have htext : ((evaluate value line).listing indent).toList =
        (margin indent).toList ++ ((value.listing 0).toList ++ [';']) := by
      simp [listing_evaluate]
    rw [htext]
    exact ((htells false).append (by decide) tells_semicolon).margin indent

/-- The listing of a `print` tells a derivation of it. -/
theorem exists_toldBy_print (hvalue : value.IsExpression)
    (hfinite : (print value line).HasFiniteNumbers) (indent : Int) :
    ∃ inner, (print value line).ToldBy indent (.statement inner) := by
  obtain ⟨d, helses, hsame, htells⟩ := hvalue.exists_derivation hfinite
  refine ⟨.print ⟨tokenOf .printWord "print", rfl⟩ d ⟨tokenOf .semicolon ";", rfl⟩, helses, ?_, ?_⟩
  · simp [hsame]
  · have htext : ((print value line).listing indent).toList = (margin indent).toList ++
        ("print".toList ++ ' ' :: ((value.listing 0).toList ++ [';'])) := by
      simp [listing_print]
    have hvalue := (htells false).append (by decide) tells_semicolon
    rw [htext]
    exact ((tells_keyword (by simp)).append (by decide) hvalue.blank).margin indent

/-- The listing of a declaration without a value tells a derivation of it. -/
theorem exists_toldBy_declare (hname : Kind.ofLexeme? name.toList = some .name) (indent : Int) :
    ∃ d, (declare name line).ToldBy indent d := by
  refine ⟨.declare ⟨tokenOf .varWord "var", rfl⟩ ⟨tokenOf .name name, rfl⟩
    ⟨tokenOf .semicolon ";", rfl⟩, rfl, rfl, ?_⟩
  have htext : ((declare name line).listing indent).toList =
      (margin indent).toList ++ ("var".toList ++ ' ' :: (name.toList ++ [';'])) := by
    simp [listing_declare]
  have hdeclared : Tells false (name.toList ++ [';'])
      [tokenOf .name name, tokenOf .semicolon ";"] :=
    (tells_name hname).append (by decide) tells_semicolon
  rw [htext]
  exact ((tells_keyword (by simp)).append (by decide) hdeclared.blank).margin indent

/-- The listing of a declaration with a value tells a derivation of it. -/
theorem exists_toldBy_define (hname : Kind.ofLexeme? name.toList = some .name)
    (hvalue : value.IsExpression) (hfinite : (define name value line).HasFiniteNumbers)
    (indent : Int) : ∃ d, (define name value line).ToldBy indent d := by
  obtain ⟨d, helses, hsame, htells⟩ := hvalue.exists_derivation hfinite
  refine ⟨.define ⟨tokenOf .varWord "var", rfl⟩ ⟨tokenOf .name name, rfl⟩
    ⟨tokenOf .assign "=", rfl⟩ d ⟨tokenOf .semicolon ";", rfl⟩, helses, ?_, ?_⟩
  · simp [hsame, tokenOf]
  · have htext : ((define name value line).listing indent).toList = (margin indent).toList ++
        ("var".toList ++ ' ' :: (name.toList ++ ' ' :: (['='] ++
          ' ' :: ((value.listing 0).toList ++ [';'])))) := by
      simp [listing_define]
    have hvalue := (htells false).append (by decide) tells_semicolon
    have hmarked := tells_assign.append (by decide) hvalue.blank
    have hdefined := (tells_name hname).append (by decide) hmarked.blank
    rw [htext]
    exact ((tells_keyword (by simp)).append (by decide) hdefined.blank).margin indent

/-- The listing of an `if` tells a derivation of it if that of its branch does. -/
theorem exists_toldBy_ifThen (hcondition : condition.IsExpression)
    (hfinite : condition.HasFiniteNumbers) {first : Derivation .statement}
    (hthen : thenBranch.ToldBy (indent + 1) (.statement first)) :
    ∃ inner, (ifThen condition thenBranch line).ToldBy indent (.statement inner) := by
  obtain ⟨d, helses, hsame, htells⟩ := hcondition.exists_derivation hfinite
  refine ⟨.ifThen ⟨tokenOf .ifWord "if", rfl⟩ ⟨tokenOf .openParen "(", rfl⟩ d
    ⟨tokenOf .closeParen ")", rfl⟩ first, ?_, ?_, ?_⟩
  · simpa [helses] using hthen.bindsElses
  · simpa [hsame] using hthen.same
  · have htext : ((ifThen condition thenBranch line).listing indent).toList =
        (margin indent).toList ++ ("if".toList ++ ' ' :: ((condition.listing 0).toList ++
          '\n' :: (thenBranch.listing (indent + 1)).toList)) := by
      simp [listing_ifThen]
    rw [htext]
    exact ((htells true).condition (by simp) hthen.tells).margin indent

/-- The listing of a conditional tells a derivation of it if those of its branches do, and if the
first branch cannot take the `else`. -/
theorem exists_toldBy_ifElse (hcondition : condition.IsExpression)
    (hfinite : condition.HasFiniteNumbers) (hopen : thenBranch.endsOpen = false)
    {first second : Derivation .statement}
    (hthen : thenBranch.ToldBy (indent + 1) (.statement first))
    (helse : elseBranch.ToldBy (indent + 1) (.statement second)) :
    ∃ inner, (ifElse condition thenBranch elseBranch line).ToldBy indent (.statement inner) := by
  obtain ⟨d, helses, hsame, htells⟩ := hcondition.exists_derivation hfinite
  refine ⟨.ifElse ⟨tokenOf .ifWord "if", rfl⟩ ⟨tokenOf .openParen "(", rfl⟩ d
    ⟨tokenOf .closeParen ")", rfl⟩ first ⟨tokenOf .elseWord "else", rfl⟩ second, ?_, ?_, ?_⟩
  · have hfirst : first.bindsElses = true := hthen.bindsElses
    have hsecond : second.bindsElses = true := helse.bindsElses
    simp [helses, hfirst, hsecond, hthen.endsOpen_eq, hopen]
  · have hfirst : first.tree.withoutLines = thenBranch.withoutLines := hthen.same
    have hsecond : second.tree.withoutLines = elseBranch.withoutLines := helse.same
    simp [hsame, hfirst, hsecond]
  · have htext : ((ifElse condition thenBranch elseBranch line).listing indent).toList =
        (margin indent).toList ++ ("if".toList ++ ' ' :: ((condition.listing 0).toList ++
          '\n' :: ((thenBranch.listing (indent + 1)).toList ++ '\n' :: ((margin indent).toList ++
            ("else".toList ++ '\n' :: (elseBranch.listing (indent + 1)).toList))))) := by
      simp [listing_ifElse]
    have hword : Tells false "else".toList [tokenOf .elseWord "else"] := tells_keyword (by simp)
    have hotherwise := hword.append (by decide) helse.tells.newline
    have hbranches := hthen.tells.append (by decide) (hotherwise.margin indent).newline
    rw [htext]
    exact ((htells true).condition (by simp) hbranches).margin indent

/-- The listing of a loop tells a derivation of it if that of its body does. -/
theorem exists_toldBy_loop (hcondition : condition.IsExpression)
    (hfinite : condition.HasFiniteNumbers) {first : Derivation .statement}
    (hbody : body.ToldBy (indent + 1) (.statement first)) :
    ∃ inner, (loop condition body line).ToldBy indent (.statement inner) := by
  obtain ⟨d, helses, hsame, htells⟩ := hcondition.exists_derivation hfinite
  refine ⟨.loop ⟨tokenOf .whileWord "while", rfl⟩ ⟨tokenOf .openParen "(", rfl⟩ d
    ⟨tokenOf .closeParen ")", rfl⟩ first, ?_, ?_, ?_⟩
  · simpa [helses] using hbody.bindsElses
  · simpa [hsame] using hbody.same
  · have htext : ((loop condition body line).listing indent).toList =
        (margin indent).toList ++ ("while".toList ++ ' ' :: ((condition.listing 0).toList ++
          '\n' :: (body.listing (indent + 1)).toList)) := by
      simp [listing_loop]
    rw [htext]
    exact ((htells true).condition (by simp) hbody.tells).margin indent

/-- Statements in a row tell a derivation, if each of them does. -/
theorem exists_derivation_of_toldBy
    (h : ∀ statement ∈ statements, ∃ d, statement.ToldBy indent d) :
    ∃ d : Derivation .declarations, d.bindsElses = true ∧
      withoutLinesOf d.tree = withoutLinesOf statements ∧
      Tells false ("\n".intercalate (statements.map (listing indent))).toList d.tokens := by
  induction statements with
  | nil => exact ⟨.empty, rfl, rfl, tells_nil⟩
  | cons first rest ih =>
    rw [List.forall_mem_cons] at h
    obtain ⟨d, hd⟩ := h.1
    obtain ⟨more, helses, hsame, htells⟩ := ih h.2
    refine ⟨.next d more, by simp [hd.bindsElses, helses], by simp [hd.same, hsame], ?_⟩
    cases rest with
    | nil =>
      rw [Derivation.tokens, htells.eq_nil, List.append_nil, List.map_singleton,
        String.intercalate_singleton]
      exact hd.tells
    | cons second rest =>
      rw [List.map_cons, List.map_cons, String.intercalate_cons_cons, ← List.map_cons]
      simpa using hd.tells.append (by decide) htells.newline

/-- The listing of a block tells a derivation of it if those of its statements do. -/
theorem exists_toldBy_block (h : ∀ statement ∈ statements, ∃ d, statement.ToldBy (indent + 1) d) :
    ∃ inner, (block statements line).ToldBy indent (.statement inner) := by
  obtain ⟨d, helses, hsame, htells⟩ := exists_derivation_of_toldBy h
  refine ⟨.block ⟨tokenOf .openBrace (String.ofList ['{']), rfl⟩ d
    ⟨tokenOf .closeBrace (String.ofList ['}']), rfl⟩, helses, by simp [hsame], ?_⟩
  rw [listing_block, braced]
  split_ifs with hempty
  · rw [String.isEmpty_iff] at hempty
    rw [hempty] at htells
    have htext : (margin indent ++ "\x7b\x7d").toList =
        (margin indent).toList ++ ['{', '}'] := by simp
    simp only [Derivation.tokens, htells.eq_nil, htext]
    exact tells_closeBrace.openBrace.margin indent
  · have hinner := htells.append (by decide) (tells_closeBrace.margin indent).newline
    simpa using hinner.newline.openBrace.margin indent

/-- A statement is told where declarations are allowed and where they are not. -/
theorem exists_toldBy_of_statement {statement : Node} {declares : Bool}
    (h : ∃ inner, statement.ToldBy indent (.statement inner)) :
    ∃ d, statement.ToldBy indent d ∧ (declares = false → ∃ inner, d = .statement inner) := by
  obtain ⟨inner, h⟩ := h
  exact ⟨_, h, fun _ => ⟨inner, rfl⟩⟩

/-- The listing of a statement tells a derivation of it, and no declaration where none is
allowed. -/
theorem IsStatement.exists_toldBy {declares : Bool} {statement : Node}
    (h : IsStatement declares statement) (hfinite : statement.HasFiniteNumbers) (indent : Int) :
    ∃ d, statement.ToldBy indent d ∧ (declares = false → ∃ inner, d = .statement inner) := by
  induction h generalizing indent with
  | evaluate _ hvalue line =>
    exact exists_toldBy_of_statement (exists_toldBy_evaluate hvalue hfinite indent)
  | print _ hvalue line =>
    exact exists_toldBy_of_statement (exists_toldBy_print hvalue hfinite indent)
  | ifThen _ hcondition _ line ih =>
    simp only [HasFiniteNumbers, numbers, List.forall_mem_append] at hfinite
    obtain ⟨d, hthen, hd⟩ := ih hfinite.2 (indent + 1)
    obtain ⟨first, rfl⟩ := hd rfl
    exact exists_toldBy_of_statement (exists_toldBy_ifThen hcondition hfinite.1 hthen)
  | ifElse _ hcondition _ hopen _ line ihthen ihelse =>
    simp only [HasFiniteNumbers, numbers, List.forall_mem_append] at hfinite
    obtain ⟨d, hthen, hd⟩ := ihthen hfinite.1.2 (indent + 1)
    obtain ⟨first, rfl⟩ := hd rfl
    obtain ⟨d', helse, hd'⟩ := ihelse hfinite.2 (indent + 1)
    obtain ⟨second, rfl⟩ := hd' rfl
    exact exists_toldBy_of_statement
      (exists_toldBy_ifElse hcondition hfinite.1.1 hopen hthen helse)
  | loop _ hcondition _ line ih =>
    simp only [HasFiniteNumbers, numbers, List.forall_mem_append] at hfinite
    obtain ⟨d, hbody, hd⟩ := ih hfinite.2 (indent + 1)
    obtain ⟨first, rfl⟩ := hd rfl
    exact exists_toldBy_of_statement (exists_toldBy_loop hcondition hfinite.1 hbody)
  | block _ _ line ih =>
    simp only [HasFiniteNumbers, numbers, numbersOf_eq_flatMap, List.mem_flatMap] at hfinite
    refine exists_toldBy_of_statement (exists_toldBy_block fun statement hmem => ?_)
    have hpart : statement.HasFiniteNumbers := fun x hx => hfinite x ⟨statement, hmem, hx⟩
    obtain ⟨d, hd, -⟩ := ih statement hmem hpart (indent + 1)
    exact ⟨d, hd⟩
  | @declare name hname line =>
    obtain ⟨d, hd⟩ : ∃ d, (Node.declare name line).ToldBy indent d :=
      exists_toldBy_declare hname indent
    exact ⟨d, hd, fun h => by cases h⟩
  | define hname hinitial line =>
    obtain ⟨d, hd⟩ := exists_toldBy_define hname hinitial hfinite indent
    exact ⟨d, hd, fun h => by cases h⟩

/-- Statements with the same listing are the same on other lines. -/
theorem IsStatement.withoutLines_eq {declares declares' : Bool} {statement statement' : Node}
    (h : IsStatement declares statement) (h' : IsStatement declares' statement')
    (hfinite : statement.HasFiniteNumbers) (hfinite' : statement'.HasFiniteNumbers)
    (heq : statement.listing indent = statement'.listing indent) :
    statement.withoutLines = statement'.withoutLines := by
  obtain ⟨d, hd, -⟩ := h.exists_toldBy hfinite indent
  obtain ⟨d', hd', -⟩ := h'.exists_toldBy hfinite' indent
  have htokens : d.tokens = d'.tokens := by
    have hall := hd.tells [] (by simp [Stopped])
    have hall' := hd'.tells [] (by simp [Stopped])
    rw [heq, hall'] at hall
    exact (List.append_cancel_right hall).symm
  have hsame : Derivation.next d .empty = .next d' .empty :=
    Derivation.eq_of_tokens_eq (by simp [hd.bindsElses]) (by simp [hd'.bindsElses])
      (by simp [htokens])
  obtain ⟨rfl, -⟩ := Derivation.next.inj hsame
  rw [← hd.same, hd'.same]

end ToldBy

end Node

/-! ## Trees of programs -/

/-- What is derived is an expression or a statement of a program. -/
def Grammar.Derivation.TreeProper : {s : Symbol} → Derivation s → Prop
  | .operand _, d | .expression, d => Node.IsExpression d.tree
  | .rest _, d => ∀ left : Node, left.IsExpression → Node.IsExpression (d.tree left)
  | .statement, d => Node.IsStatement false d.tree
  | .declaration, d => Node.IsStatement true d.tree
  | .declarations, d => ∀ statement ∈ (d.tree : List Node), Node.IsStatement true statement

/-- An assignment is an expression, and so is the target alone where nothing can be assigned. -/
theorem Node.IsExpression.assignment {target value : Node} (htarget : target.IsExpression)
    (hvalue : value.IsExpression) : ((assignment? target value).getD target).IsExpression := by
  cases htarget with
  | literal n line => exact .literal n line
  | reference hname line => exact .assign hname hvalue line
  | binary op hlhs hrhs line => exact .binary op hlhs hrhs line
  | assign hname hvalue line => exact .assign hname hvalue line

/-- A statement can stand where declarations are allowed. -/
theorem Node.IsStatement.declares {statement : Node} (h : IsStatement false statement) :
    IsStatement true statement := by
  cases h with
  | evaluate _ hvalue line => exact .evaluate _ hvalue line
  | print _ hvalue line => exact .print _ hvalue line
  | ifThen _ hcondition hthen line => exact .ifThen _ hcondition hthen line
  | ifElse _ hcondition hthen hopen helse line => exact .ifElse _ hcondition hthen hopen helse line
  | loop _ hcondition hbody line => exact .loop _ hcondition hbody line
  | block _ h line => exact .block _ h line

/-- The names in tokens are spelled as names are. -/
def NamesSpelled (tokens : List Token) : Prop :=
  ∀ token ∈ tokens, token.kind = .name → Kind.ofLexeme? token.text.toList = some .name

/-- The names in both parts are spelled as names are if all of them are. -/
theorem namesSpelled_append {tokens tokens' : List Token} :
    NamesSpelled (tokens ++ tokens') ↔ NamesSpelled tokens ∧ NamesSpelled tokens' :=
  List.forall_mem_append

/-- The names are spelled as names are if the first token is, should it be a name, and the others
are. -/
theorem namesSpelled_cons {token : Token} {tokens : List Token} :
    NamesSpelled (token :: tokens) ↔
      (token.kind = .name → Kind.ofLexeme? token.text.toList = some .name) ∧
        NamesSpelled tokens :=
  List.forall_mem_cons

/-- The tree of a derivation is one of a program. -/
theorem Grammar.Derivation.treeProper {s : Symbol} (d : Derivation s)
    (hspelled : NamesSpelled d.tokens) (helses : d.bindsElses = true) : d.TreeProper := by
  induction d with
  | literal token => exact .literal _ _
  | reference token => exact .reference (hspelled _ (by simp) token.property) _
  | done => exact fun left hleft => hleft
  | empty => exact fun statement hmem => absurd hmem List.not_mem_nil
  | group opening inner closing ih =>
    simp only [tokens, namesSpelled_append, namesSpelled_cons] at hspelled
    exact ih hspelled.2.1 helses
  | chain first more ihfirst ihmore =>
    rw [tokens, namesSpelled_append] at hspelled
    rw [bindsElses, Bool.and_eq_true] at helses
    exact ihmore hspelled.2 helses.2 _ (ihfirst hspelled.1 helses.1)
  | operation sign op hsign operand more ihoperand ihmore =>
    rw [tokens, namesSpelled_cons, namesSpelled_append] at hspelled
    rw [bindsElses, Bool.and_eq_true] at helses
    intro left hleft
    exact ihmore hspelled.2.2 helses.2 _
      (.binary op hleft (ihoperand hspelled.2.1 helses.1) _)
  | plain equality ih => exact ih hspelled helses
  | assign target mark value ihtarget ihvalue =>
    rw [tokens, namesSpelled_append, namesSpelled_cons] at hspelled
    rw [bindsElses, Bool.and_eq_true] at helses
    exact (ihtarget hspelled.1 helses.1).assignment (ihvalue hspelled.2.2 helses.2)
  | print word value semicolon ih =>
    simp only [tokens, namesSpelled_append, namesSpelled_cons] at hspelled
    exact .print _ (ih hspelled.2.1 helses) _
  | evaluate value semicolon ih =>
    rw [tokens, namesSpelled_append] at hspelled
    exact .evaluate _ (ih hspelled.1 helses) _
  | ifThen word opening condition closing thenBranch ihcondition ihthen =>
    simp only [tokens, namesSpelled_append, namesSpelled_cons] at hspelled
    rw [bindsElses, Bool.and_eq_true] at helses
    exact .ifThen _ (ihcondition hspelled.2.2.1 helses.1) (ihthen hspelled.2.2.2.2 helses.2) _
  | ifElse word opening condition closing thenBranch otherwise elseBranch ihcondition ihthen
      ihelse =>
    simp only [tokens, namesSpelled_append, namesSpelled_cons] at hspelled
    simp only [bindsElses, Bool.and_eq_true, Bool.not_eq_true'] at helses
    obtain ⟨-, -, hcondition, -, hthen, -, helse⟩ := hspelled
    refine .ifElse _ (ihcondition hcondition helses.1.1.2) (ihthen hthen helses.1.2) ?_
      (ihelse helse helses.2) _
    rw [Node.endsOpen_tree, helses.1.1.1]
  | loop word opening condition closing body ihcondition ihbody =>
    simp only [tokens, namesSpelled_append, namesSpelled_cons] at hspelled
    rw [bindsElses, Bool.and_eq_true] at helses
    exact .loop _ (ihcondition hspelled.2.2.1 helses.1) (ihbody hspelled.2.2.2.2 helses.2) _
  | block opening inner closing ih =>
    simp only [tokens, namesSpelled_append, namesSpelled_cons] at hspelled
    exact .block _ (ih hspelled.2.1 helses) _
  | declare word name semicolon => exact .declare (hspelled _ (by simp) name.property) _
  | define word name mark initial semicolon ih =>
    simp only [tokens, namesSpelled_append, namesSpelled_cons] at hspelled
    exact .define (hspelled.2.1 name.property) (ih hspelled.2.2.2.1 helses) _
  | statement inner ih => exact (ih hspelled helses).declares
  | next first more ihfirst ihmore =>
    rw [tokens, namesSpelled_append] at hspelled
    rw [bindsElses, Bool.and_eq_true] at helses
    exact List.forall_mem_cons.mpr ⟨ihfirst hspelled.1 helses.1, ihmore hspelled.2 helses.2⟩

/-- In a text that can be scanned, names are spelled as names are. -/
theorem TokenList.namesSpelled {text : String} {tokens : TokenList} (h : ofText text = .ok tokens) :
    NamesSpelled tokens.tokens := by
  intro token hmem hkind
  obtain ⟨s, -, rfl⟩ := exists_segmentation_of_ofText h
  obtain ⟨i, hi⟩ := List.mem_iff_getElem?.mp hmem
  rw [Segmentation.tokens, Segment.getElem?_tokensFrom, Option.map_eq_some_iff] at hi
  obtain ⟨segment, -, rfl⟩ := hi
  rw [String.toList_ofList, segment.kind_eq]
  exact congrArg some hkind

/-- The statements that a statement governs or has in its braces. -/
def Node.governed : Node → List Node
  | ifThen _ thenBranch _ => [thenBranch]
  | ifElse _ thenBranch elseBranch _ => [thenBranch, elseBranch]
  | loop _ body _ => [body]
  | block statements _ => statements
  | _ => []

/-- What a statement of a program governs is a statement of a program. -/
theorem Node.IsStatement.of_mem_governed {declares : Bool} {statement part : Node}
    (h : IsStatement declares statement) (hmem : part ∈ statement.governed) :
    ∃ declares, IsStatement declares part := by
  cases h with
  | ifThen _ _ hthen _ =>
    obtain rfl := List.mem_singleton.mp hmem
    exact ⟨false, hthen⟩
  | ifElse _ _ hthen _ helse _ =>
    rcases List.mem_pair.mp hmem with rfl | rfl
    · exact ⟨false, hthen⟩
    · exact ⟨false, helse⟩
  | loop _ _ hbody _ =>
    obtain rfl := List.mem_singleton.mp hmem
    exact ⟨false, hbody⟩
  | block _ h _ => exact ⟨true, h part hmem⟩
  | _ => cases hmem

namespace Program

/-- The statements of a program, at any depth. -/
inductive Contains (program : Program) : Node → Prop where
  | statement {statement : Node} (h : statement ∈ program.statements) : Contains program statement
  | governed {statement part : Node} (h : Contains program statement)
      (hmem : part ∈ statement.governed) : Contains program part

variable {file file' : Option String} {text text' : String} {program program' : Program}

/-- What a program without errors contains are statements of the grammar. -/
theorem Contains.isStatement {statement : Node} (hstatement : program.Contains statement)
    (h : Program.ofText file text = .ok program) (herrors : program.errors = []) :
    ∃ declares, Node.IsStatement declares statement := by
  induction hstatement with
  | statement hmem =>
    obtain ⟨tokens, htokens, rfl⟩ := exists_tokens_of_ofText h
    obtain ⟨d, hfits, hd, htree⟩ := exists_derivation_of_errors_eq_nil herrors
    have hspelled : NamesSpelled d.tokens := hd ▸ TokenList.namesSpelled htokens
    exact ⟨true, d.treeProper hspelled hfits.bindsElses _ (htree ▸ hmem)⟩
  | governed _ hmem ih =>
    obtain ⟨declares, hpart⟩ := ih
    exact hpart.of_mem_governed hmem

/-- Two statements of programs without errors, with finite numbers only, are the same on other lines
if they have the same listing for some indentation, which may be negative. -/
theorem withoutLines_eq_of_listing_eq (h : Program.ofText file text = .ok program)
    (herrors : program.errors = []) (h' : Program.ofText file' text' = .ok program')
    (herrors' : program'.errors = []) {statement statement' : Node}
    (hstatement : program.Contains statement) (hstatement' : program'.Contains statement')
    (hfinite : statement.HasFiniteNumbers) (hfinite' : statement'.HasFiniteNumbers)
    {room room' : Headroom} {indent : Int} {listing : String}
    (hlisting : statement.listing? room indent = some listing)
    (hlisting' : statement'.listing? room' indent = some listing) :
    statement.withoutLines = statement'.withoutLines := by
  obtain ⟨_, hproper⟩ := hstatement.isStatement h herrors
  obtain ⟨_, hproper'⟩ := hstatement'.isStatement h' herrors'
  have heq : statement.listing indent = statement'.listing indent :=
    (Node.listing_eq_of_listing? hlisting).trans (Node.listing_eq_of_listing? hlisting').symm
  exact hproper.withoutLines_eq hproper' hfinite hfinite' heq

/-- The tokens of `if (a) if (b) x = 10000000000000000; else print 2;`. -/
def nestedIf : List Token :=
  [⟨.ifWord, "if", 1⟩, ⟨.openParen, "(", 1⟩, ⟨.name, "a", 1⟩, ⟨.closeParen, ")", 1⟩,
    ⟨.ifWord, "if", 1⟩, ⟨.openParen, "(", 1⟩, ⟨.name, "b", 1⟩, ⟨.closeParen, ")", 1⟩,
    ⟨.name, "x", 1⟩, ⟨.assign, "=", 1⟩, ⟨.number, "10000000000000000", 1⟩, ⟨.semicolon, ";", 1⟩,
    ⟨.elseWord, "else", 1⟩, ⟨.printWord, "print", 1⟩, ⟨.number, "2", 1⟩, ⟨.semicolon, ";", 1⟩]

/-- The tokens of the same in a loop, on other lines and with more parentheses and zeros. -/
def nestedIfInLoop : List Token :=
  [⟨.whileWord, "while", 1⟩, ⟨.openParen, "(", 1⟩, ⟨.name, "c", 1⟩, ⟨.closeParen, ")", 1⟩,
    ⟨.ifWord, "if", 2⟩, ⟨.openParen, "(", 2⟩, ⟨.openParen, "(", 2⟩, ⟨.name, "a", 2⟩,
    ⟨.closeParen, ")", 2⟩, ⟨.closeParen, ")", 2⟩, ⟨.ifWord, "if", 2⟩, ⟨.openParen, "(", 2⟩,
    ⟨.name, "b", 2⟩, ⟨.closeParen, ")", 2⟩, ⟨.openParen, "(", 3⟩, ⟨.name, "x", 3⟩,
    ⟨.closeParen, ")", 3⟩, ⟨.assign, "=", 3⟩, ⟨.number, "010000000000000000", 3⟩,
    ⟨.semicolon, ";", 3⟩, ⟨.elseWord, "else", 4⟩, ⟨.printWord, "print", 4⟩, ⟨.number, "2", 4⟩,
    ⟨.semicolon, ";", 4⟩]

/-- The statement that is read from them, on its lines and with its numeral. -/
def nestedIfNode (first second third : Int) (numeral : String) : Node :=
  .ifThen (.reference "a" (some first))
    (.ifElse (.reference "b" (some first))
      (.evaluate (.assign "x" (.literal (.number (Number.ofNumeral numeral)) (some second))
        (some second)) (some second))
      (.print (.literal (.number (Number.ofNumeral "2")) (some third)) (some third)) (some first))
    (some first)

/-- No margin tells to which `if` the `else` belongs here. -/
theorem withoutLines_eq_of_listing_eq_nestedIf :
    ∃ program program',
      Program.ofText none "if (a) if (b) x = 10000000000000000; else print 2;" = .ok program ∧
      program.errors = [] ∧
      Program.ofText none
        "while (c)\nif ((a)) if (b)\n(x) = 010000000000000000;\nelse print 2;" = .ok program' ∧
      program'.errors = [] ∧
      program.Contains (nestedIfNode 1 1 1 "10000000000000000") ∧
      program'.Contains (nestedIfNode 2 3 4 "010000000000000000") ∧
      (nestedIfNode 1 1 1 "10000000000000000").HasFiniteNumbers ∧
      (nestedIfNode 2 3 4 "010000000000000000").HasFiniteNumbers ∧
      (nestedIfNode 1 1 1 "10000000000000000").listing? .standard (-1) =
        some "if a\nif b\n  (x = 1e+16);\nelse\n  print 2.0;" ∧
      (nestedIfNode 2 3 4 "010000000000000000").listing? .standard (-1) =
        some "if a\nif b\n  (x = 1e+16);\nelse\n  print 2.0;" ∧
      (nestedIfNode 1 1 1 "10000000000000000").withoutLines =
        (nestedIfNode 2 3 4 "010000000000000000").withoutLines := by
  have htokens : TokenList.ofText "if (a) if (b) x = 10000000000000000; else print 2;" =
      .ok ⟨nestedIf, 1⟩ := by decide +kernel
  have htokens' : TokenList.ofText
      "while (c)\nif ((a)) if (b)\n(x) = 010000000000000000;\nelse print 2;" =
      .ok ⟨nestedIfInLoop, 4⟩ := by decide +kernel
  have hfinite : (nestedIfNode 1 1 1 "10000000000000000").HasFiniteNumbers := by
    simp only [Node.HasFiniteNumbers, nestedIfNode, Node.numbers]
    decide +kernel
  have hfinite' : (nestedIfNode 2 3 4 "010000000000000000").HasFiniteNumbers := by
    simp only [Node.HasFiniteNumbers, nestedIfNode, Node.numbers]
    decide +kernel
  have hcontains : (ofTokens none ⟨nestedIf, 1⟩).Contains
      (nestedIfNode 1 1 1 "10000000000000000") :=
    .statement (List.mem_singleton.mpr rfl)
  have hcontains' : (ofTokens none ⟨nestedIfInLoop, 4⟩).Contains
      (nestedIfNode 2 3 4 "010000000000000000") :=
    .governed (.statement (List.mem_singleton.mpr rfl)) (List.mem_singleton.mpr rfl)
  have hlisting : (nestedIfNode 1 1 1 "10000000000000000").listing? .standard (-1) =
      some "if a\nif b\n  (x = 1e+16);\nelse\n  print 2.0;" := by decide +kernel
  have hlisting' : (nestedIfNode 2 3 4 "010000000000000000").listing? .standard (-1) =
      some "if a\nif b\n  (x = 1e+16);\nelse\n  print 2.0;" := by decide +kernel
  exact ⟨_, _, ofText_of_tokens none htokens, rfl, ofText_of_tokens none htokens', rfl, hcontains,
    hcontains', hfinite, hfinite', hlisting, hlisting',
    withoutLines_eq_of_listing_eq (ofText_of_tokens none htokens) rfl
      (ofText_of_tokens none htokens') rfl hcontains hcontains' hfinite hfinite' hlisting hlisting'⟩

end Program

end ScriptKit
