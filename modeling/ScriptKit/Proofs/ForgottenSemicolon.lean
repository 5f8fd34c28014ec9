import ScriptKit.Proofs.BrokenBlocks

/-!
# A forgotten semicolon

The semicolon of a statement is missing, and the keyword of the next one stands in its place. The
error is found at that keyword. Recovery always drops the token at which an error was found, and
only then looks for a place where a statement may begin. So the keyword is lost, and with it the
statement that it begins: a `print` or `var` as a whole, an `if` or `while` up to the first place
inside it or behind it where another statement may begin.

What is left is never what the second text reads as on its own. `Node.keywords` counts the
statements that begin with a keyword, and one keyword is gone.
-/

set_option autoImplicit false

namespace ScriptKit

/-! ## Counting keywords -/

/-- How many of the tokens begin a statement. -/
def keywordCount (tokens : List Token) : Nat := tokens.countP (·.kind.startsStatement)

/-- There is no keyword among no tokens. -/
@[simp] theorem keywordCount_nil : keywordCount [] = 0 := rfl

/-- Keywords are counted part by part. -/
@[simp] theorem keywordCount_append (front back : List Token) :
    keywordCount (front ++ back) = keywordCount front + keywordCount back :=
  List.countP_append

/-- A token that begins a statement counts. -/
theorem keywordCount_of_startsStatement {token : Token} (h : token.kind.startsStatement = true)
    (rest : List Token) : keywordCount (token :: rest) = keywordCount rest + 1 :=
  List.countP_cons_of_pos h

/-- A token that begins no statement does not count. -/
theorem keywordCount_of_not_startsStatement {token : Token}
    (h : token.kind.startsStatement = false) (rest : List Token) :
    keywordCount (token :: rest) = keywordCount rest :=
  List.countP_cons_of_neg (by simp [h])

/-- What stays inside a statement begins none. -/
theorem keywordCount_of_staysInside {tokens : List Token}
    (h : ∀ token ∈ tokens, token.kind.staysInside = true) : keywordCount tokens = 0 := by
  refine List.countP_eq_zero.mpr fun token hmem hstarts => ?_
  have hstays := h token hmem
  rw [Token.Kind.staysInside, hstarts] at hstays
  cases hstays

namespace Node

mutual

/-- How many statements in the tree begin with a keyword. -/
@[simp] def keywords : Node → Nat
  | print .. | declare .. | define .. => 1
  | ifThen _ thenBranch _ => thenBranch.keywords + 1
  | ifElse _ thenBranch elseBranch _ => thenBranch.keywords + elseBranch.keywords + 1
  | loop _ body _ => body.keywords + 1
  | block statements _ => keywordsOf statements
  | _ => 0

/-- How many statements in the trees begin with a keyword. -/
@[simp] def keywordsOf : List Node → Nat
  | [] => 0
  | first :: rest => first.keywords + keywordsOf rest

end

/-- The complaint about a missing semicolon at the end of the statement, if it ends with one of its
own. -/
def semicolonComplaint? : Node → Option Complaint
  | print .. => some .unendedPrint
  | declare .. | define .. => some .unendedDeclaration
  | evaluate .. => some .unendedExpression
  | _ => none

end Node

namespace Grammar

open Cursor Parse

/-- A terminal whose kind begins a statement counts. -/
theorem keywordCount_terminal {kind : Token.Kind} (token : Terminal kind)
    (h : kind.startsStatement = true) (rest : List Token) :
    keywordCount (token.val :: rest) = keywordCount rest + 1 :=
  keywordCount_of_startsStatement (by rwa [token.property]) rest

/-- A terminal of another kind does not count. -/
theorem keywordCount_other_terminal {kind : Token.Kind} (token : Terminal kind)
    (h : kind.startsStatement = false) (rest : List Token) :
    keywordCount (token.val :: rest) = keywordCount rest :=
  keywordCount_of_not_startsStatement (by rwa [token.property]) rest

/-- What may stand in an expression may stand inside a statement. -/
theorem staysInside_of_inExpression {kind : Token.Kind} (h : kind.inExpression = true) :
    kind.staysInside = true := by
  revert h
  cases kind <;> decide

/-- The tokens of an expression stay inside a statement, and the keywords among those of a statement
are counted by its tree. -/
def Derivation.CountsKeywords : {s : Symbol} → Derivation s → Prop
  | .operand _, d | .rest _, d | .expression, d =>
    ∀ token ∈ d.tokens, token.kind.staysInside = true
  | .statement, d | .declaration, d => keywordCount d.tokens = d.tree.keywords
  | .declarations, d => keywordCount d.tokens = Node.keywordsOf d.tree

/-- The tree of a derivation tells how many keywords there are among its tokens. -/
theorem Derivation.countsKeywords {s : Symbol} (d : Derivation s) : d.CountsKeywords := by
  induction d with
  | literal token | reference token =>
    rw [CountsKeywords, tokens, List.forall_mem_singleton, token.property]
    rfl
  | group opening inner closing ih =>
    simp only [CountsKeywords, tokens, List.forall_mem_cons, List.forall_mem_append] at ih ⊢
    exact ⟨by rw [opening.property]; rfl, ih, by rw [closing.property]; rfl, by simp⟩
  | chain first more ihfirst ihmore =>
    simp only [CountsKeywords, tokens, List.forall_mem_append] at ihfirst ihmore ⊢
    exact ⟨ihfirst, ihmore⟩
  | done => simp [CountsKeywords]
  | operation sign op hsign operand more ihoperand ihmore =>
    simp only [CountsKeywords, tokens, List.forall_mem_cons, List.forall_mem_append]
      at ihoperand ihmore ⊢
    exact ⟨staysInside_of_inExpression (inExpression_of_operatorAt? hsign), ihoperand, ihmore⟩
  | plain equality ih => exact ih
  | assign target mark value ihtarget ihvalue =>
    simp only [CountsKeywords, tokens, List.forall_mem_cons, List.forall_mem_append]
      at ihtarget ihvalue ⊢
    exact ⟨ihtarget, by rw [mark.property]; rfl, ihvalue⟩
  | print word value semicolon ih =>
    rw [CountsKeywords, tokens, keywordCount_terminal word rfl, keywordCount_append,
      keywordCount_of_staysInside ih, keywordCount_other_terminal semicolon rfl]
    rfl
  | evaluate value semicolon ih =>
    rw [CountsKeywords, tokens, keywordCount_append, keywordCount_of_staysInside ih,
      keywordCount_other_terminal semicolon rfl]
    rfl
  | ifThen word opening condition closing thenBranch ihcondition ihthen =>
    rw [CountsKeywords] at ihthen ⊢
    rw [tokens, keywordCount_terminal word rfl, keywordCount_other_terminal opening rfl,
      keywordCount_append, keywordCount_of_staysInside ihcondition,
      keywordCount_other_terminal closing rfl, ihthen, Nat.zero_add]
    rfl
  | ifElse word opening condition closing thenBranch otherwise elseBranch ihcondition ihthen
      ihelse =>
    rw [CountsKeywords] at ihthen ihelse ⊢
    rw [tokens, keywordCount_terminal word rfl, keywordCount_other_terminal opening rfl,
      keywordCount_append, keywordCount_of_staysInside ihcondition,
      keywordCount_other_terminal closing rfl, keywordCount_append,
      keywordCount_other_terminal otherwise rfl, ihthen, ihelse, Nat.zero_add]
    rfl
  | loop word opening condition closing body ihcondition ihbody =>
    rw [CountsKeywords] at ihbody ⊢
    rw [tokens, keywordCount_terminal word rfl, keywordCount_other_terminal opening rfl,
      keywordCount_append, keywordCount_of_staysInside ihcondition,
      keywordCount_other_terminal closing rfl, ihbody, Nat.zero_add]
    rfl
  | block opening inner closing ih =>
    simp only [CountsKeywords] at ih ⊢
    rw [tokens, keywordCount_other_terminal opening rfl, keywordCount_append, ih,
      keywordCount_other_terminal closing rfl]
    rfl
  | declare word name semicolon =>
    rw [CountsKeywords, tokens, keywordCount_terminal word rfl,
      keywordCount_other_terminal name rfl, keywordCount_other_terminal semicolon rfl]
    rfl
  | define word name mark initial semicolon ih =>
    rw [CountsKeywords, tokens, keywordCount_terminal word rfl,
      keywordCount_other_terminal name rfl, keywordCount_other_terminal mark rfl,
      keywordCount_append, keywordCount_of_staysInside ih,
      keywordCount_other_terminal semicolon rfl]
    rfl
  | statement inner ih => exact ih
  | empty => rfl
  | next first more ihfirst ihmore =>
    simp only [CountsKeywords] at ihfirst ihmore ⊢
    rw [tokens, keywordCount_append, ihfirst, ihmore]
    rfl

end Grammar

namespace Program

open Grammar

/-- Texts that are read without an error and give the same statements have the same number of
keywords. -/
theorem keywordCount_eq_of_statements_eq {file file' : Option String} {tokens tokens' : TokenList}
    (h : (ofTokens file tokens).errors = []) (h' : (ofTokens file' tokens').errors = [])
    (heq : (ofTokens file tokens).statements = (ofTokens file' tokens').statements) :
    keywordCount tokens.tokens = keywordCount tokens'.tokens := by
  obtain ⟨d, -, htokens, htree⟩ := exists_derivation_of_errors_eq_nil h
  obtain ⟨d', -, htokens', htree'⟩ := exists_derivation_of_errors_eq_nil h'
  have hcount : keywordCount d.tokens = Node.keywordsOf d.tree := d.countsKeywords
  have hcount' : keywordCount d'.tokens = Node.keywordsOf d'.tree := d'.countsKeywords
  rw [← htokens, ← htokens', hcount, hcount', htree, htree', heq]

end Program

/-! ## Where recovery resumes -/

/-- The first tokens of a text up to a place where a statement may begin, which is behind a
semicolon or in front of a keyword, and the tokens after them. -/
structure UpToBoundary (dropped after : List Token) : Prop where
  no_keyword : ∀ token ∈ dropped, token.kind.startsStatement = false
  no_semicolon : ∀ token ∈ dropped.dropLast, token.kind ≠ .semicolon
  boundary : after = [] ∨ endsStatement dropped = true ∨
    ∃ next rest, after = next :: rest ∧ next.kind.startsStatement = true

/-- A token that is no boundary comes in front of the tokens up to the next one. -/
theorem UpToBoundary.cons {token : Token} {dropped after : List Token}
    (h : UpToBoundary dropped after) (hkeyword : token.kind.startsStatement = false)
    (hsemicolon : token.kind ≠ .semicolon) : UpToBoundary (token :: dropped) after := by
  refine ⟨List.forall_mem_cons.mpr ⟨hkeyword, h.no_keyword⟩, ?_, h.boundary.imp_right ?_⟩
  · rcases eq_or_ne dropped [] with rfl | hne
    · simp
    · rw [List.dropLast_cons_of_ne_nil hne]
      exact List.forall_mem_cons.mpr ⟨hsemicolon, h.no_semicolon⟩
  · refine Or.imp_left fun hends => ?_
    rw [← List.singleton_append, endsStatement_append [token] (ne_nil_of_endsStatement hends)]
    exact hends

namespace Cursor

/-- Behind a token that is no semicolon, the way to the next statement leads to the first place
where one may begin. -/
theorem exists_upToBoundary (rest : List Token) :
    ∃ dropped after, rest = dropped ++ after ∧ UpToBoundary dropped after ∧
      ∀ passed : List Token, passed.head?.any (·.kind = .semicolon) = false →
        passStatement passed rest = (dropped.reverse ++ passed, after) := by
  induction rest with
  | nil => exact ⟨[], [], rfl, ⟨by simp, by simp, .inl rfl⟩, fun _ _ => rfl⟩
  | cons token rest ih =>
    by_cases hstarts : token.kind.startsStatement = true
    · refine ⟨[], token :: rest, rfl, ⟨by simp, by simp, .inr (.inr ⟨token, rest, rfl, hstarts⟩)⟩,
        fun passed hlast => ?_⟩
      rw [passStatement, hstarts, if_pos (by simp)]
      rfl
    have hno : token.kind.startsStatement = false := Bool.eq_false_iff.mpr hstarts
    by_cases hsemicolon : token.kind = .semicolon
    · refine ⟨[token], rest, rfl,
        ⟨by simpa using hno, by simp, .inr (.inl (by simpa using hsemicolon))⟩,
        fun passed hlast => ?_⟩
      rw [passStatement, hlast, hno, if_neg (by simp)]
      cases rest with
      | nil => rfl
      | cons next rest =>
        rw [passStatement, if_pos (by simp [hsemicolon])]
        rfl
    · obtain ⟨dropped, after, rfl, hboundary, hpass⟩ := ih
      refine ⟨token :: dropped, after, rfl, hboundary.cons hno hsemicolon, fun passed hlast => ?_⟩
      rw [passStatement, hlast, hno, if_neg (by simp), hpass _ (by simpa using hsemicolon)]
      simp

/-- Recovery at a keyword drops it. -/
theorem moves_recover_of_keyword {m : Cursor} {word : Token} {dropped after : List Token}
    (hahead : m.ahead = word :: (dropped ++ after)) (hword : word.kind.startsStatement = true)
    (hpass : ∀ passed : List Token, passed.head?.any (·.kind = .semicolon) = false →
      passStatement passed (dropped ++ after) = (dropped.reverse ++ passed, after))
    (error : SyntaxError) :
    m.Moves (word :: dropped) [error] (m.recover error) ∧ (m.recover error).ahead = after := by
  have hkind : word.kind ≠ .semicolon := by
    intro hkind
    rw [hkind] at hword
    cases hword
  have hskip := hpass (word :: m.passed) (by simpa using hkind)
  refine ⟨⟨?_, ?_, ?_, ?_, ?_⟩, ?_⟩ <;> simp [recover, resume, advance, hahead, hskip]

end Cursor

/-! ## Reading up to the keyword -/

namespace Grammar

open Cursor Parse

section Unended

variable {levels : Nat} {c : Cursor} {word : Token} {rest : List Token}

/-- No keyword goes on with an expression or ends a statement. -/
theorem kind_of_startsStatement {kind : Token.Kind} (h : kind.startsStatement = true) :
    kind.row? = none ∧ kind ≠ .assign ∧ kind ≠ .semicolon := by
  revert h
  cases kind <;> decide

/-- A keyword is no semicolon. -/
theorem outcome_expect_semicolon_of_keyword (hword : word.kind.startsStatement = true)
    (hahead : c.ahead = word :: rest) (complaint : Complaint) :
    outcome (expect .semicolon complaint) c = (.error (c.errorHere complaint), c) := by
  refine outcome_expect_of_not_isAt complaint ?_
  rw [isAt_of_ahead _ hahead]
  exact decide_eq_false (kind_of_startsStatement hword).2.2

/-- An expression in front of a keyword is read, and then its semicolon is missed. -/
theorem outcome_unended_expression {d : Derivation .expression} (hfits : d.FitsIn levels)
    (hword : word.kind.startsStatement = true) (hahead : c.ahead = d.tokens ++ word :: rest)
    (complaint : Complaint) (next : Node → Parse Node) :
    outcome (do
        let value ← expression (nested levels)
        let _ ← expect .semicolon complaint
        next value) c =
      (.error ((c.behind d.tokens (word :: rest)).errorHere complaint),
        c.behind d.tokens (word :: rest)) := by
  obtain ⟨hsign, hmark, -⟩ := kind_of_startsStatement hword
  have hread : Derivation.ReadsExpression d := d.reads
  have hvalue := hread.before_terminal ⟨word, rfl⟩ hsign hmark hfits hahead
  rw [outcome_bind_of_ok hvalue,
    outcome_bind_of_error (outcome_expect_semicolon_of_keyword hword rfl complaint)]

/-- A declaration without a value stops at a keyword in the place of its semicolon. -/
theorem outcome_unended_declare (hword : word.kind.startsStatement = true)
    (keyword : Terminal .varWord) (name : Terminal .name)
    (hahead : c.ahead = keyword.val :: name.val :: word :: rest) :
    outcome (attempt (nested levels)) c =
      (.error ((c.behind [keyword.val, name.val] (word :: rest)).errorHere .unendedDeclaration),
        c.behind [keyword.val, name.val] (word :: rest)) := by
  have hassign : (c.behind [keyword.val, name.val] (word :: rest)).isAt .assign = false := by
    rw [isAt_of_ahead _ (ahead_behind _ _ _)]
    exact decide_eq_false (kind_of_startsStatement hword).2.1
  rw [outcome_attempt, isAt_terminal keyword .varWord hahead, if_pos (by decide), varDeclaration,
    outcome_bind_of_ok (outcome_expect_terminal keyword _ hahead),
    outcome_bind_of_ok (outcome_expect_terminal name _ (ahead_behind _ _ _)), behind_behind,
    List.singleton_append, outcome_get_bind, hassign, if_neg (by decide),
    outcome_bind_of_error (outcome_expect_semicolon_of_keyword hword (ahead_behind _ _ _) _)]

/-- A declaration with a value stops at a keyword in the place of its semicolon. -/
theorem outcome_unended_define (hword : word.kind.startsStatement = true)
    (keyword : Terminal .varWord) (name : Terminal .name) (mark : Terminal .assign)
    {initial : Derivation .expression} (hfits : initial.FitsIn levels)
    (hahead : c.ahead = keyword.val :: name.val :: mark.val :: (initial.tokens ++ word :: rest)) :
    outcome (attempt (nested levels)) c =
      (.error ((c.behind (keyword.val :: name.val :: mark.val :: initial.tokens)
          (word :: rest)).errorHere .unendedDeclaration),
        c.behind (keyword.val :: name.val :: mark.val :: initial.tokens) (word :: rest)) := by
  have hmark :=
    ahead_behind c [keyword.val, name.val] (mark.val :: (initial.tokens ++ word :: rest))
  rw [outcome_attempt, isAt_terminal keyword .varWord hahead, if_pos (by decide), varDeclaration,
    outcome_bind_of_ok (outcome_expect_terminal keyword _ hahead),
    outcome_bind_of_ok (outcome_expect_terminal name _ (ahead_behind _ _ _)), behind_behind,
    List.singleton_append, outcome_get_bind, isAt_terminal mark .assign hmark, if_pos (by decide),
    outcome_advance_bind, advance_of_ahead hmark, behind_behind,
    outcome_unended_expression hfits hword (ahead_behind _ _ _), behind_behind]
  rfl

/-- A statement that prints stops at a keyword in the place of its semicolon. -/
theorem outcome_unended_print (hword : word.kind.startsStatement = true)
    (keyword : Terminal .printWord) {value : Derivation .expression} (hfits : value.FitsIn levels)
    (hahead : c.ahead = keyword.val :: (value.tokens ++ word :: rest)) :
    outcome (attempt (nested levels)) c =
      (.error ((c.behind (keyword.val :: value.tokens) (word :: rest)).errorHere .unendedPrint),
        c.behind (keyword.val :: value.tokens) (word :: rest)) := by
  rw [outcome_attempt, isAt_terminal keyword .varWord hahead, if_neg (by decide), outcome_statement,
    isAt_terminal keyword .printWord hahead, if_pos (by decide), printStatement,
    outcome_bind_of_ok (outcome_expect_terminal keyword _ hahead),
    outcome_unended_expression hfits hword (ahead_behind _ _ _), behind_behind,
    List.singleton_append]

/-- A statement that evaluates stops at a keyword in the place of its semicolon. -/
theorem outcome_unended_evaluate (hword : word.kind.startsStatement = true)
    {value : Derivation .expression} (hfits : value.FitsIn levels)
    (hahead : c.ahead = value.tokens ++ word :: rest) :
    outcome (attempt (nested levels)) c =
      (.error ((c.behind value.tokens (word :: rest)).errorHere .unendedExpression),
        c.behind value.tokens (word :: rest)) := by
  obtain ⟨token, later, hvalue, hopens⟩ := value.exists_head_expression
  have hfirst : c.ahead = token :: (later ++ word :: rest) := by
    rw [hahead, hvalue, List.cons_append]
  have hvar : c.isAt .varWord = false := by
    rw [isAt_of_ahead _ hfirst, decide_eq_false_iff_not]
    intro hkind
    rw [hkind] at hopens
    cases hopens
  rw [outcome_attempt, hvar, if_neg (by decide),
    Derivation.outcome_statement_of_opensPrimary hfirst hopens,
    expressionStatement, outcome_get_bind, outcome_unended_expression hfits hword hahead]

/-- A statement without its semicolon is read up to the keyword behind it. -/
theorem outcome_attempt_unended {d : Derivation .declaration} {front : List Token}
    {semicolon : Token} {complaint : Complaint} (hfits : d.FitsIn levels)
    (hends : Node.semicolonComplaint? d.tree = some complaint)
    (htokens : d.tokens = front ++ [semicolon]) (hword : word.kind.startsStatement = true)
    (hahead : c.ahead = front ++ word :: rest) :
    outcome (attempt (nested levels)) c =
      (.error ((c.behind front (word :: rest)).errorHere complaint),
        c.behind front (word :: rest)) := by
  have hfront (inside : List Token) (last : Token) (h : d.tokens = inside ++ [last]) :
      inside = front := (List.append_inj' (h.symm.trans htokens) rfl).1
  cases d with
  | declare keyword name last =>
    obtain rfl := hfront [keyword.val, name.val] last.val rfl
    cases hends
    exact outcome_unended_declare hword keyword name hahead
  | define keyword name mark initial last =>
    obtain rfl := hfront (keyword.val :: name.val :: mark.val :: initial.tokens) last.val rfl
    cases hends
    exact outcome_unended_define hword keyword name mark (Derivation.fitsIn_define.mp hfits) hahead
  | statement inner =>
    have hinner := Derivation.fitsIn_statement.mp hfits
    cases inner with
    | print keyword value last =>
      obtain rfl := hfront (keyword.val :: value.tokens) last.val rfl
      cases hends
      exact outcome_unended_print hword keyword (Derivation.fitsIn_print.mp hinner) hahead
    | evaluate value last =>
      obtain rfl := hfront value.tokens last.val rfl
      cases hends
      exact outcome_unended_evaluate hword (Derivation.fitsIn_evaluate.mp hinner) hahead
    | _ => cases hends

/-- What begins with `var` or `print` is one statement, up to its first semicolon. -/
theorem Derivation.exists_inside {d : Derivation .declaration} {keyword : Token}
    {later : List Token} (htokens : d.tokens = keyword :: later)
    (hkeyword : keyword.kind = .varWord ∨ keyword.kind = .printWord) :
    ∃ inside semicolon, later = inside ++ [semicolon] ∧ semicolon.kind = .semicolon ∧
      ∀ token ∈ inside, token.kind.staysInside = true := by
  cases d with
  | declare word name semicolon =>
    obtain ⟨-, rfl⟩ := List.cons_eq_cons.mp htokens
    refine ⟨[name.val], semicolon.val, rfl, semicolon.property, ?_⟩
    rw [List.forall_mem_singleton, name.property]
    rfl
  | define word name mark initial semicolon =>
    obtain ⟨-, rfl⟩ := List.cons_eq_cons.mp htokens
    refine ⟨name.val :: mark.val :: initial.tokens, semicolon.val, rfl, semicolon.property, ?_⟩
    rw [List.forall_mem_cons, List.forall_mem_cons, name.property, mark.property]
    exact ⟨rfl, rfl, initial.countsKeywords⟩
  | statement inner =>
    have hhead : headKind inner.tokens = some keyword.kind := by
      rw [show inner.tokens = keyword :: later from htokens, headKind_cons]
    cases inner with
    | print word value semicolon =>
      obtain ⟨-, rfl⟩ := List.cons_eq_cons.mp htokens
      exact ⟨value.tokens, semicolon.val, rfl, semicolon.property, value.countsKeywords⟩
    | evaluate value semicolon =>
      obtain ⟨token, rest, hvalue, hopens⟩ := value.exists_head_expression
      rw [tokens, hvalue, List.cons_append, headKind_cons, Option.some.injEq] at hhead
      rw [hhead] at hopens
      rcases hkeyword with hkind | hkind <;> rw [hkind] at hopens <;> cases hopens
    | block word | ifThen word | ifElse word | loop word =>
      rw [tokens, headKind_cons, word.property, Option.some.injEq] at hhead
      rcases hkeyword with hkind | hkind <;> rw [hkind] at hhead <;> cases hhead

end Unended

end Grammar

namespace Program

open Cursor Grammar

variable {file : Option String} {front rest : List Token} {word : Token} {endLine : Nat}

/-- The error at the keyword, and what is read behind it. -/
theorem ofTokens_of_unended (file : Option String) (endLine : Nat) {d : Derivation .declaration}
    {semicolon : Token} {complaint : Complaint} (hfits : d.FitsIn maxNesting)
    (hends : Node.semicolonComplaint? d.tree = some complaint)
    (htokens : d.tokens = front ++ [semicolon]) (hword : word.kind.startsStatement = true)
    {dropped after : List Token}
    (hpass : ∀ passed : List Token, passed.head?.any (·.kind = .semicolon) = false →
      passStatement passed (dropped ++ after) = (dropped.reverse ++ passed, after)) :
    (ofTokens file ⟨front ++ word :: (dropped ++ after), endLine⟩).statements =
        SyntaxError.marker file ⟨complaint, some word, word.line, front.length⟩ ::
          (ofTokens file ⟨after, endLine⟩).statements ∧
      (ofTokens file ⟨front ++ word :: (dropped ++ after), endLine⟩).errors =
        ⟨complaint, some word, word.line, front.length⟩ ::
          (ofTokens file ⟨after, endLine⟩).errors.map
            (SyntaxError.moved (front.length + 1 + dropped.length)) := by
  let c := start file ⟨front ++ word :: (dropped ++ after), endLine⟩
  let m := c.behind front (word :: (dropped ++ after))
  have hahead : m.ahead = word :: (dropped ++ after) := rfl
  have herror : m.errorHere complaint = ⟨complaint, some word, word.line, front.length⟩ := by
    have hplace : m.position = front.length := by simp [position, m, c, start]
    rw [errorHere, current?_of_ahead hahead, line_of_ahead hahead, hplace]
  have hgoes : c.isAtEnd = false := by simp [isAtEnd, c, start]
  have hattempt := outcome_attempt_unended hfits hends htokens hword
    (show c.ahead = front ++ word :: (dropped ++ after) from rfl)
  obtain ⟨hmoves, hafter⟩ := moves_recover_of_keyword hahead hword hpass (m.errorHere complaint)
  obtain ⟨hnodes, hlater⟩ := outcome_program_eq (m.recover (m.errorHere complaint))
  have hposition : (m.recover (m.errorHere complaint)).position =
      front.length + 1 + dropped.length := by
    rw [hmoves.position_eq]
    simp [position, m, c, start]
    omega
  have hfirst : (m.recover (m.errorHere complaint)).errors.toList = [m.errorHere complaint] :=
    hmoves.errors
  have hfile : (m.recover (m.errorHere complaint)).file = file := hmoves.file
  have hendLine : (m.recover (m.errorHere complaint)).endLine = endLine := hmoves.endLine
  have hprogram : Walk.outcome program c =
      ((m.errorHere complaint).marker file ::
          (Walk.outcome program (m.recover (m.errorHere complaint))).1,
        (Walk.outcome program (m.recover (m.errorHere complaint))).2) := by
    rw [program, outermost,
      outcome_declarations_of_error (nestedFollows maxNesting) endsList_isAtEnd hgoes hattempt]
    rfl
  rw [hafter, hfile, hendLine] at hnodes hlater
  rw [← herror]
  refine ⟨?_, ?_⟩
  · rw [statements_ofTokens, hprogram, hnodes]
  · rw [errors_ofTokens, hprogram, hlater, hfirst, hposition, List.singleton_append]

/-- A declaration that is read alone has a derivation. -/
theorem exists_derivation_of_single {tokens : TokenList} {node : Node}
    (hread : (ofTokens file tokens).statements = [node])
    (herrors : (ofTokens file tokens).errors = []) :
    ∃ d : Derivation .declaration,
      d.FitsIn maxNesting ∧ d.tokens = tokens.tokens ∧ d.tree = node := by
  obtain ⟨d, hfits, htokens, htree⟩ := exists_derivation_of_errors_eq_nil herrors
  rw [hread] at htree
  cases d with
  | empty => cases htree
  | next first more =>
    cases more with
    | next => simp at htree
    | empty =>
      exact ⟨first, (Derivation.fitsIn_next.mp hfits).1, by simpa using htokens,
        by simpa using htree⟩

/-- A text that begins with `var` or `print` is a statement up to its first semicolon and the text
behind that. -/
theorem ofTokens_of_var_or_print (herrors : (ofTokens file ⟨word :: rest, endLine⟩).errors = [])
    (hword : word.kind = .varWord ∨ word.kind = .printWord) :
    ∃ inside semicolon after, rest = inside ++ semicolon :: after ∧ semicolon.kind = .semicolon ∧
      (∀ token ∈ inside, token.kind.staysInside = true) ∧
      (ofTokens file ⟨after, endLine⟩).errors = [] ∧
      (ofTokens file ⟨after, endLine⟩).statements =
        (ofTokens file ⟨word :: rest, endLine⟩).statements.tail := by
  obtain ⟨d, hfits, htokens, htree⟩ := exists_derivation_of_errors_eq_nil herrors
  cases d with
  | empty => cases htokens
  | next first more =>
    obtain ⟨keyword, later, hfirst, -⟩ := first.exists_head_declaration
    simp only [Derivation.tokens, hfirst, List.cons_append, List.cons.injEq] at htokens
    obtain ⟨rfl, rfl⟩ := htokens
    obtain ⟨inside, semicolon, rfl, hsemicolon, hinside⟩ := Derivation.exists_inside hfirst hword
    obtain ⟨hstatements, hnone⟩ := ofTokens_of_derivation (Derivation.fitsIn_next.mp hfits).2 file
      (show more.tokens = (⟨more.tokens, endLine⟩ : TokenList).tokens from rfl)
    refine ⟨inside, semicolon, more.tokens, by simp, hsemicolon, hinside, hnone, ?_⟩
    rw [hstatements, ← htree]
    rfl

/-- A statement that lacks its semicolon is followed by a text without errors that begins with a
keyword. The one error about the statement is at the keyword. The keyword is dropped with all that
stands between it and the next place where a statement may begin, and only what follows is read. So
the result is never a marker and the statements of the second text. If that text begins with `var`
or `print`, then it lacks exactly the first of them. -/
theorem forgotten_semicolon_drops_keyword {semicolon : Terminal .semicolon} {line : Nat}
    {node : Node} {complaint : Complaint}
    (hread : (ofTokens file ⟨front ++ [semicolon.val], line⟩).statements = [node])
    (herrors : (ofTokens file ⟨front ++ [semicolon.val], line⟩).errors = [])
    (hends : node.semicolonComplaint? = some complaint)
    (hword : word.kind.startsStatement = true)
    (hfollowing : (ofTokens file ⟨word :: rest, endLine⟩).errors = []) :
    ∃ error dropped after, error = ⟨complaint, some word, word.line, front.length⟩ ∧
      rest = dropped ++ after ∧ UpToBoundary dropped after ∧
      (ofTokens file ⟨front ++ word :: rest, endLine⟩).statements =
        error.marker file :: (ofTokens file ⟨after, endLine⟩).statements ∧
      (ofTokens file ⟨front ++ word :: rest, endLine⟩).errors =
        error :: (ofTokens file ⟨after, endLine⟩).errors.map
          (SyntaxError.moved (front.length + 1 + dropped.length)) ∧
      (¬ ∃ error' marker, (ofTokens file ⟨front ++ word :: rest, endLine⟩).errors = [error'] ∧
        (ofTokens file ⟨front ++ word :: rest, endLine⟩).statements =
          marker :: (ofTokens file ⟨word :: rest, endLine⟩).statements) ∧
      (word.kind = .varWord ∨ word.kind = .printWord →
        (ofTokens file ⟨front ++ word :: rest, endLine⟩).errors = [error] ∧
        (ofTokens file ⟨front ++ word :: rest, endLine⟩).statements =
          error.marker file :: (ofTokens file ⟨word :: rest, endLine⟩).statements.tail) := by
  obtain ⟨d, hfits, htokens, rfl⟩ := exists_derivation_of_single hread herrors
  obtain ⟨dropped, after, rfl, hboundary, hpass⟩ := exists_upToBoundary rest
  obtain ⟨hstatements, hfound⟩ := ofTokens_of_unended file endLine hfits hends htokens hword hpass
  refine ⟨_, dropped, after, rfl, rfl, hboundary, hstatements, hfound, ?_, fun hkind => ?_⟩
  · rintro ⟨error', marker, hone, hsame⟩
    -- The rest would have as many keywords as the whole.
    rw [hfound, List.cons.injEq, List.map_eq_nil_iff] at hone
    rw [hstatements, List.cons.injEq] at hsame
    have hcount : keywordCount after = keywordCount (word :: (dropped ++ after)) :=
      keywordCount_eq_of_statements_eq hone.2 hfollowing hsame.2
    rw [keywordCount_of_startsStatement hword, keywordCount_append] at hcount
    omega
  · obtain ⟨inside, last, later, hrest, hlast, hinside, hnone, htail⟩ :=
      ofTokens_of_var_or_print hfollowing hkind
    have hstart : [word].head?.any (·.kind = .semicolon) = false := by
      simpa using (kind_of_startsStatement hword).2.2
    have hafter : (passStatement [word] (inside ++ last :: later)).2 = later :=
      passStatement_of_within hstart hlast hinside
    rw [← hrest, hpass [word] hstart] at hafter
    obtain rfl : after = later := hafter
    rw [hfound, hstatements, hnone, htail]
    exact ⟨rfl, rfl⟩

/-- The tokens of `print a`. -/
def unendedName : List Token := [⟨.printWord, "print", 1⟩, ⟨.name, "a", 1⟩]

/-- A semicolon on the line. -/
def endMark (line : Nat) : Terminal .semicolon := ⟨⟨.semicolon, ";", line⟩, rfl⟩

/-- The tokens of `print b; var c;`. -/
def printAndDeclare : List Token :=
  [⟨.printWord, "print", 2⟩, ⟨.name, "b", 2⟩, ⟨.semicolon, ";", 2⟩, ⟨.varWord, "var", 2⟩,
    ⟨.name, "c", 2⟩, ⟨.semicolon, ";", 2⟩]

/-- Behind `print a` without its semicolon, `print b;` is lost and `var c;` is read. -/
theorem forgotten_semicolon_drops_print :
    (ofTokens none ⟨unendedName ++ [(endMark 1).val], 1⟩).errors = [] ∧
    (ofTokens none ⟨printAndDeclare, 2⟩).errors = [] ∧
    ∃ error : SyntaxError,
      (ofTokens none ⟨unendedName ++ printAndDeclare, 2⟩).errors = [error] ∧
      (ofTokens none ⟨unendedName ++ printAndDeclare, 2⟩).statements =
        [error.marker none, .declare "c" (some 2)] := by
  have hread : (ofTokens none ⟨unendedName ++ [(endMark 1).val], 1⟩).statements =
      [.print (.reference "a" (some 1)) (some 1)] := by rfl
  have herrors : (ofTokens none ⟨unendedName ++ [(endMark 1).val], 1⟩).errors = [] := by decide
  have hfollowing : (ofTokens none ⟨printAndDeclare, 2⟩).errors = [] := by decide
  obtain ⟨error, -, -, -, -, -, -, -, -, hlost⟩ :=
    forgotten_semicolon_drops_keyword hread herrors rfl rfl hfollowing
  exact ⟨herrors, hfollowing, error, hlost (.inr rfl)⟩

/-- The tokens of `print 2;`. -/
def printTwo : List Token :=
  [⟨.printWord, "print", 1⟩, ⟨.number, "2", 1⟩, ⟨.semicolon, ";", 1⟩]

/-- Of `print 1 print 2;` one marker is left, and the second statement is gone. -/
theorem print_lost_behind_print :
    (ofTokens none ⟨unendedPrint ++ [(endMark 1).val], 1⟩).errors = [] ∧
    (ofTokens none ⟨printTwo, 1⟩).errors = [] ∧
    ¬ ∃ error marker, (ofTokens none ⟨unendedPrint ++ printTwo, 1⟩).errors = [error] ∧
      (ofTokens none ⟨unendedPrint ++ printTwo, 1⟩).statements =
        marker :: (ofTokens none ⟨printTwo, 1⟩).statements := by
  refine ⟨by decide +kernel, by decide +kernel, ?_⟩
  rintro ⟨error, marker, -, hsame⟩
  have hmarkers : (ofTokens none ⟨unendedPrint ++ printTwo, 1⟩).statements.map Node.isMarker =
      [true] := by decide +kernel
  have hprint : (ofTokens none ⟨printTwo, 1⟩).statements.map Node.isMarker = [false] := by
    decide +kernel
  rw [hsame, List.map_cons, hprint] at hmarkers
  simp at hmarkers

end Program

end ScriptKit
