import ScriptKit.Proofs.Isolation
import ScriptKit.Proofs.Markers

/-!
# Malformed statements in a block

A statement without braces ends behind a semicolon. A rule that fails on the way stops somewhere
else: behind a semicolon a statement is over, or an `else` goes on with it. `Covers` says both of an
action, and each rule has a lemma for it.

Recovery takes a closing brace for any other token. It stops behind a semicolon or in front of a
keyword, and what stands between braces may offer neither of them after the place of an error. So
whether a block survives its malformed statements is decided by the token in front of its closing
brace. Behind a semicolon the brace is found, and every malformed statement has its marker in the
block. Behind any other token recovery passes the brace, and the block is given up with all that was
read in it.
-/

set_option autoImplicit false

namespace ScriptKit

/-- Is a semicolon the last of the tokens? -/
def endsStatement (tokens : List Token) : Bool := tokens.getLast?.any (·.kind = .semicolon)

/-- There is no brace among the tokens. -/
def BraceFree (tokens : List Token) : Prop :=
  ∀ token ∈ tokens, token.kind ≠ .openBrace ∧ token.kind ≠ .closeBrace

/-- Nothing does not end with a semicolon. -/
@[simp] theorem endsStatement_nil : endsStatement [] = false := rfl

/-- One token ends a statement if it is a semicolon. -/
@[simp] theorem endsStatement_singleton (token : Token) :
    endsStatement [token] = decide (token.kind = .semicolon) := rfl

/-- The last token of two lists is that of the second one, if it has any. -/
theorem endsStatement_append (front : List Token) {back : List Token} (h : back ≠ []) :
    endsStatement (front ++ back) = endsStatement back := by
  rw [endsStatement, List.getLast?_append_of_ne_nil front h, endsStatement]

/-- What ends with a semicolon is not empty. -/
theorem ne_nil_of_endsStatement {tokens : List Token} (h : endsStatement tokens = true) :
    tokens ≠ [] := by
  rintro rfl
  cases h

/-- The first of two lists ends no statement, so the two end one if the second does. -/
theorem endsStatement_append_of_false {front : List Token} (h : endsStatement front = false)
    (back : List Token) : endsStatement (front ++ back) = endsStatement back := by
  rcases eq_or_ne back [] with rfl | hback
  · rw [List.append_nil, h, endsStatement_nil]
  · exact endsStatement_append front hback

/-- Tokens without a brace have none in either part. -/
theorem BraceFree.of_append {front back : List Token} (h : BraceFree (front ++ back)) :
    BraceFree front ∧ BraceFree back :=
  ⟨fun token hmem => h token (List.mem_append_left _ hmem),
    fun token hmem => h token (List.mem_append_right _ hmem)⟩

/-- What has no closing brace and begins a list that goes up to one is a part of that list. -/
theorem exists_eq_append_of_closeBrace {used rest front : List Token} {closing : Token}
    (hclosing : closing.kind = .closeBrace) (hused : ∀ token ∈ used, token.kind ≠ .closeBrace)
    (h : front ++ [closing] = used ++ rest) :
    ∃ back, front = used ++ back ∧ rest = back ++ [closing] := by
  obtain ⟨back, hused', hrest⟩ | ⟨back, hfront, hback⟩ := List.append_eq_append_iff.mp h
  · -- The brace itself would be among what was passed.
    cases back with
    | nil => exact ⟨[], by simpa using hused'.symm, by simpa using hrest.symm⟩
    | cons token back =>
      obtain ⟨rfl, -⟩ := List.cons_eq_cons.mp hrest
      exact absurd hclosing (hused closing (by simp [hused']))
  · exact ⟨back, hfront, hback⟩

namespace Cursor

variable {c m m' : Cursor} {ended : Bool}

/-- No block begins ahead of the cursor. -/
def BlockFree (c : Cursor) : Prop := ∀ token ∈ c.ahead, token.kind ≠ .openBrace

/-- Between the two cursors there are tokens without a closing brace and no errors, and `ended`
tells whether a semicolon is the last of these tokens. -/
def Passes (c : Cursor) (ended : Bool) (m : Cursor) : Prop :=
  ∃ used, c.Moves used [] m ∧ (∀ token ∈ used, token.kind ≠ .closeBrace) ∧
    endsStatement used = ended

/-- Between a cursor and itself there are no tokens. -/
theorem Passes.refl (c : Cursor) : c.Passes false c := ⟨[], Moves.refl c, by simp, rfl⟩

/-- Behind tokens that end with no semicolon, what comes next decides how they end. -/
theorem Passes.trans (h : c.Passes false m) (h' : m.Passes ended m') : c.Passes ended m' := by
  obtain ⟨used, hmoves, hfree, hended⟩ := h
  obtain ⟨used', hmoves', hfree', rfl⟩ := h'
  exact ⟨used ++ used', hmoves.trans hmoves', List.forall_mem_append.mpr ⟨hfree, hfree'⟩,
    endsStatement_append_of_false hended used'⟩

/-- One more token decides alone how the way ends. -/
theorem Passes.token (h : c.Passes ended m) {kind : Token.Kind} {rest : List Token}
    (token : Grammar.Terminal kind) (hahead : m.ahead = token.val :: rest)
    (hkind : kind ≠ .closeBrace) :
    c.Passes (decide (kind = .semicolon)) (m.behind [token.val] rest) := by
  obtain ⟨used, hmoves, hfree, -⟩ := h
  refine ⟨used ++ [token.val], hmoves.trans (moves_pass hahead), ?_, ?_⟩
  · refine List.forall_mem_append.mpr ⟨hfree, ?_⟩
    simpa [token.property] using hkind
  · rw [endsStatement_append used (by simp), endsStatement_singleton, token.property]

/-- Where no block begins ahead, none begins further on. -/
theorem BlockFree.of_passes (h : c.BlockFree) (hpasses : c.Passes ended m) : m.BlockFree := by
  obtain ⟨used, hmoves, -, -⟩ := hpasses
  intro token hmem
  exact h token (by simp [hmoves.ahead, hmem])

/-- Where no block begins ahead, none begins here. -/
theorem BlockFree.isAt_openBrace (h : c.BlockFree) : c.isAt .openBrace = false := by
  rw [Bool.eq_false_iff]
  intro hat
  obtain ⟨token, rest, hahead, hkind⟩ := exists_ahead_of_isAt hat
  exact h token (by simp [hahead]) hkind

/-- Expressions have neither braces nor semicolons. -/
theorem Glides.passes (h : Glides c m) : c.Passes false m := by
  obtain ⟨used, hmoves, hkinds⟩ := Glides.exists_moves h
  refine ⟨used, hmoves, fun token hmem hkind => ?_, ?_⟩
  · have hinside := hkinds token hmem
    rw [hkind] at hinside
    cases hinside
  · rw [endsStatement, Option.any_eq_false]
    intro token hlast
    have hinside := hkinds token (List.mem_of_getLast? hlast)
    rw [decide_eq_false_iff_not]
    intro hkind
    rw [hkind] at hinside
    cases hinside

end Cursor

namespace Parse

open Cursor

variable {α β : Type} {ended : Bool} {c : Cursor}

/-- The action passes tokens and records nothing. If it succeeds, then `ended` tells whether a
semicolon was passed last; if it fails, then none was. -/
def Covers (ended : Bool) (action : Parse α) (c : Cursor) : Prop :=
  match outcome action c with
  | (.ok _, m) => c.Passes ended m
  | (.error _, m) => c.Passes false m

/-- An action that succeeds covers what it has passed. -/
theorem covers_of_ok {action : Parse α} {m : Cursor} {a : α}
    (hout : outcome action c = (.ok a, m)) (h : c.Passes ended m) : Covers ended action c := by
  rw [Covers, hout]
  exact h

/-- An action that fails covers what it has passed, if that does not end with a semicolon. -/
theorem covers_of_error {action : Parse α} {m : Cursor} {error : SyntaxError}
    (hout : outcome action c = (.error error, m)) (h : c.Passes false m) :
    Covers ended action c := by
  rw [Covers, hout]
  exact h

/-- An action that covers tokens and succeeds has passed them. -/
theorem Covers.of_ok {action : Parse α} {m : Cursor} {a : α} (h : Covers ended action c)
    (hout : outcome action c = (.ok a, m)) : c.Passes ended m := by
  rw [Covers, hout] at h
  exact h

/-- An action that covers tokens and fails has not passed a semicolon last. -/
theorem Covers.of_error {action : Parse α} {m : Cursor} {error : SyntaxError}
    (h : Covers ended action c) (hout : outcome action c = (.error error, m)) :
    c.Passes false m := by
  rw [Covers, hout] at h
  exact h

/-- An action that goes on like another one, behind tokens of which the last is no semicolon. -/
theorem Covers.of_passes {action next : Parse α} {m : Cursor} (hpasses : c.Passes false m)
    (heq : outcome action c = outcome next m) (h : Covers ended next m) :
    Covers ended action c := by
  rcases hout : outcome next m with ⟨error | a, m'⟩
  · exact covers_of_error (heq.trans hout) (hpasses.trans (h.of_error hout))
  · exact covers_of_ok (heq.trans hout) (hpasses.trans (h.of_ok hout))

/-- A chain whose first action passes no semicolon last ends as the second one does. -/
theorem Covers.bind {action : Parse α} {next : α → Parse β} (h : Covers false action c)
    (hnext : ∀ a m, c.Passes false m → Covers ended (next a) m) :
    Covers ended (action >>= next) c := by
  rcases hfirst : outcome action c with ⟨error | a, m⟩
  · exact covers_of_error (outcome_bind_of_error hfirst) (h.of_error hfirst)
  · have hpasses := h.of_ok hfirst
    exact (hnext a m hpasses).of_passes hpasses (outcome_bind_of_ok hfirst)

/-- What comes last only makes the result. -/
theorem Covers.bind_pure {action : Parse α} (h : Covers ended action c) (f : α → β) :
    Covers ended (action >>= fun a => pure (f a)) c := by
  rcases hout : outcome action c with ⟨error | a, m⟩
  · exact covers_of_error (outcome_bind_of_error hout) (h.of_error hout)
  · exact covers_of_ok (outcome_bind_of_ok hout) (h.of_ok hout)

/-- Raising an error passes nothing. -/
theorem covers_fail (complaint : Complaint) (c : Cursor) :
    Covers ended (fail complaint : Parse α) c :=
  covers_of_error (outcome_fail complaint c) (.refl c)

/-- An expectation passes the token that it expects, so a semicolon was passed last if that is
one. -/
theorem covers_expect {kind : Token.Kind} (hkind : kind ≠ .closeBrace) (complaint : Complaint)
    (c : Cursor) : Covers (decide (kind = .semicolon)) (expect kind complaint) c := by
  cases hat : c.isAt kind with
  | false => exact covers_of_error (outcome_expect_of_not_isAt complaint hat) (.refl c)
  | true =>
    obtain ⟨token, rest, hahead, -⟩ := Grammar.exists_terminal_of_isAt hat
    exact covers_of_ok (Grammar.outcome_expect_terminal token complaint hahead)
      ((Passes.refl c).token token hahead hkind)

/-- An expected token that ends nothing, and what stands behind it. -/
theorem covers_expect_bind {kind : Token.Kind} {next : Token → Parse β}
    (hkind : kind ≠ .closeBrace ∧ kind ≠ .semicolon) (complaint : Complaint)
    (hnext : ∀ token m, c.Passes false m → Covers ended (next token) m) :
    Covers ended (expect kind complaint >>= next) c := by
  have hexpect := covers_expect hkind.1 complaint c
  rw [decide_eq_false hkind.2] at hexpect
  exact hexpect.bind hnext

/-- An expected semicolon, and behind it only what makes the result. -/
theorem covers_semicolon (complaint : Complaint) (b : β) (c : Cursor) :
    Covers true (do
      let _ ← expect .semicolon complaint
      return b) c :=
  (covers_expect (show Token.Kind.semicolon ≠ .closeBrace by decide) complaint c).bind_pure
    fun _ => b

end Parse

namespace Grammar

open Cursor Parse

section Rules

variable {levels : Nat} {c : Cursor}

/-- An expression passes neither a brace nor a semicolon. -/
theorem covers_expression (levels : Nat) (c : Cursor) :
    Covers false (expression (nested levels)) c := by
  have hfollows := follows_expression (nestedFollows levels).group c
  rcases hout : outcome (expression (nested levels)) c with ⟨error | node, m⟩
  · obtain ⟨raised, -, hraised, hgives, -⟩ := hfollows.of_error hout
    exact covers_of_error hout (Glides.passes (hraised.trans hgives))
  · exact covers_of_ok hout (Glides.passes (hfollows.of_ok hout))

/-- An expression and its semicolon. -/
theorem covers_expression_end (levels : Nat) (complaint : Complaint) (node : Node → Node)
    (c : Cursor) :
    Covers true (do
      let value ← expression (nested levels)
      let _ ← expect .semicolon complaint
      return node value) c := by
  exact (covers_expression levels c).bind fun value m _ => covers_semicolon complaint (node value) m

/-- A keyword and a condition in parentheses, with what stands behind them. -/
theorem covers_condition {kind : Token.Kind} (hkind : kind ≠ .closeBrace ∧ kind ≠ .semicolon)
    (complaint complaint' complaint'' : Complaint) {next : Token → Node → Parse Node}
    (hnext : ∀ word condition m, c.Passes false m → Covers true (next word condition) m) :
    Covers true (do
      let word ← expect kind complaint
      let _ ← expect .openParen complaint'
      let condition ← expression (nested levels)
      let _ ← expect .closeParen complaint''
      next word condition) c := by
  refine covers_expect_bind hkind complaint fun word m hm => ?_
  refine covers_expect_bind (by decide) complaint' fun _ m' hm' => ?_
  refine (covers_expression levels m').bind fun condition m'' hm'' => ?_
  refine covers_expect_bind (by decide) complaint'' fun _ m''' hm''' => ?_
  exact hnext word condition m''' (((hm.trans hm').trans hm'').trans hm''')

/-- A loop ends as its body does. -/
theorem covers_whileStatement
    (hbody : ∀ c : Cursor, c.BlockFree → Covers true (nested levels).body c)
    (h : c.BlockFree) : Covers true (whileStatement (nested levels)) c := by
  refine covers_condition (by decide) _ _ _ fun word condition m hm => ?_
  exact (hbody m (h.of_passes hm)).bind_pure fun body => Node.loop condition body (some word.line)

/-- Behind the first branch a conditional is over, or an `else` and a second branch follow. -/
theorem covers_ifStatement (hbody : ∀ c : Cursor, c.BlockFree → Covers true (nested levels).body c)
    (h : c.BlockFree) : Covers true (ifStatement (nested levels)) c := by
  refine covers_condition (by decide) _ _ _ fun word condition m hm => ?_
  have hfree := h.of_passes hm
  have hthen := hbody m hfree
  rcases hout : outcome (nested levels).body m with ⟨error | thenBranch, m'⟩
  · exact covers_of_error (outcome_bind_of_error hout) (hthen.of_error hout)
  have hpasses := hthen.of_ok hout
  cases helse : m'.isAt .elseWord with
  | false =>
    rw [Covers, outcome_bind_of_ok hout, outcome_get_bind, helse]
    exact hpasses
  | true =>
    obtain ⟨otherwise, rest, hahead, -⟩ := exists_terminal_of_isAt helse
    have hmiddle := hpasses.token otherwise hahead (by decide)
    refine ((hbody _ (hfree.of_passes hmiddle)).bind_pure fun elseBranch =>
      Node.ifElse condition thenBranch elseBranch (some word.line)).of_passes hmiddle ?_
    rw [outcome_bind_of_ok hout, outcome_get_bind, helse, if_pos rfl, outcome_advance_bind,
      advance_of_ahead hahead]

/-- A statement without blocks ends behind its semicolon. -/
theorem covers_statement (hbody : ∀ c : Cursor, c.BlockFree → Covers true (nested levels).body c)
    (h : c.BlockFree) : Covers true (statement (nested levels)) c := by
  have hprint : Covers true (printStatement (nested levels)) c := by
    refine covers_expect_bind (by decide) _ fun word m _ => ?_
    exact covers_expression_end levels .unendedPrint (fun node => .print node (some word.line)) m
  rw [Covers, outcome_statement, h.isAt_openBrace, if_neg Bool.false_ne_true]
  split_ifs
  · exact hprint
  · exact covers_ifStatement hbody h
  · exact covers_whileStatement hbody h
  · exact covers_expression_end levels .unendedExpression
      (fun node => .evaluate node (some c.line)) c

/-- Branches, level by level. -/
theorem covers_body (levels : Nat) (h : c.BlockFree) : Covers true (nested levels).body c := by
  induction levels generalizing c with
  | zero => exact covers_fail .nestedTooDeep c
  | succ levels ih => exact covers_statement (fun _ => ih) h

/-- A declaration of a variable ends with its semicolon. -/
theorem covers_varDeclaration (levels : Nat) (c : Cursor) :
    Covers true (varDeclaration (nested levels)) c := by
  refine covers_expect_bind (by decide) _ fun word m _ => ?_
  refine covers_expect_bind (by decide) _ fun name m' _ => ?_
  cases hmark : m'.isAt .assign with
  | false =>
    refine (covers_semicolon .unendedDeclaration (.declare name.text (some word.line)) m').of_passes
      (.refl m') ?_
    rw [outcome_get_bind, hmark, if_neg (by decide)]
  | true =>
    obtain ⟨mark, rest, hahead, -⟩ := exists_terminal_of_isAt hmark
    refine (covers_expression_end levels .unendedDeclaration
      (fun initial => .define name.text initial (some word.line)) _).of_passes
        ((Passes.refl m').token mark hahead (by decide)) ?_
    rw [outcome_get_bind, hmark, if_pos rfl, outcome_advance_bind, advance_of_ahead hahead]

/-- Where no block begins, a declaration ends behind its semicolon, and an attempt that fails does
not stop behind one. -/
theorem covers_attempt (levels : Nat) (h : c.BlockFree) :
    Covers true (attempt (nested levels)) c := by
  rw [Covers, outcome_attempt]
  split_ifs
  · exact covers_varDeclaration levels c
  · exact covers_statement (fun _ => covers_body levels) h

end Rules

end Grammar

/-! ## Recovery in front of a closing brace -/

namespace Cursor

variable {front : List Token} {closing : Token}

/-- On the way to the next statement a closing brace is passed like any other token, unless a
semicolon stands in front of it. -/
theorem passStatement_before_closeBrace (hclosing : closing.kind = .closeBrace)
    (passed front : List Token) :
    (∃ skipped rest, front = skipped ++ rest ∧
      passStatement passed (front ++ [closing]) = (skipped.reverse ++ passed, rest ++ [closing]) ∧
      (rest = [] → (skipped.reverse ++ passed).head?.any (·.kind = .semicolon) = true)) ∨
    passStatement passed (front ++ [closing]) = (closing :: (front.reverse ++ passed), []) ∧
      (front.reverse ++ passed).head?.any (·.kind = .semicolon) = false := by
  induction front generalizing passed with
  | nil =>
    have hstarts : closing.kind.startsStatement = false := by rw [hclosing]; rfl
    rw [List.nil_append, passStatement, hstarts, Bool.or_false]
    cases hlast : passed.head?.any (·.kind = .semicolon) with
    | true => exact .inl ⟨[], [], rfl, rfl, fun _ => hlast⟩
    | false => exact .inr ⟨rfl, hlast⟩
  | cons token front ih =>
    rw [List.cons_append, passStatement]
    split_ifs with hstops
    · exact .inl ⟨[], token :: front, rfl, rfl,
        fun hnil => absurd hnil (List.cons_ne_nil token front)⟩
    · rcases ih (token :: passed) with ⟨skipped, rest, rfl, hpass, hlast⟩ | ⟨hpass, hlast⟩
      · refine .inl ⟨token :: skipped, rest, rfl, ?_, ?_⟩
        · rw [hpass]
          simp
        · simpa using hlast
      · refine .inr ⟨?_, ?_⟩
        · rw [hpass]
          simp
        · simpa using hlast

/-- Recovery in front of a closing brace stops in front of it only if a semicolon was passed last,
and goes beyond it only if there is no semicolon in front of it. -/
theorem recover_before_closeBrace {m : Cursor} (hclosing : closing.kind = .closeBrace)
    (hahead : m.ahead = front ++ [closing]) (error : SyntaxError) :
    (∃ skipped rest, front = skipped ++ rest ∧ m.Moves skipped [error] (m.recover error) ∧
      (rest = [] → endsStatement skipped = true)) ∨
    (m.recover error).ahead = [] ∧ endsStatement front = false := by
  cases front with
  | nil => exact .inr ⟨by simp [recover, resume, advance, hahead, passStatement], rfl⟩
  | cons token front =>
    have hlast (skipped : List Token) :
        (skipped.reverse ++ token :: m.passed).head?.any (·.kind = .semicolon) =
          endsStatement (token :: skipped) := by
      rw [endsStatement, List.head?_append, List.head?_reverse, List.getLast?_cons]
      cases skipped.getLast? <;> rfl
    rcases passStatement_before_closeBrace hclosing (token :: m.passed) front with
      ⟨skipped, rest, rfl, hpass, hends⟩ | ⟨hpass, hends⟩
    · rw [hlast] at hends
      rw [List.append_assoc] at hpass
      refine .inl ⟨token :: skipped, rest, rfl, ⟨?_, ?_, ?_, ?_, ?_⟩, hends⟩ <;>
        simp [recover, resume, advance, hahead, hpass]
    · rw [hlast] at hends
      exact .inr ⟨by simp [recover, resume, advance, hahead, hpass], hends⟩

end Cursor

namespace Grammar

open Cursor Parse

variable {levels : Nat} {c m c' : Cursor} {front : List Token} {closing : Token}
  {parts : List (List Token × Node)}

/-- Ahead of tokens without a brace and a closing one no block begins. -/
theorem blockFree_of_ahead (hclosing : closing.kind = .closeBrace) (hfree : BraceFree front)
    (hahead : c.ahead = front ++ [closing]) : c.BlockFree := by
  intro token hmem
  rw [hahead, List.mem_append, List.mem_singleton] at hmem
  rcases hmem with hmem | rfl
  · exact (hfree token hmem).1
  · rw [hclosing]
    decide

/-- The loop over the declarations of a block goes on up to the closing brace. -/
theorem blockEnd_eq_isEmpty (hclosing : closing.kind = .closeBrace) (hfree : BraceFree front)
    (hahead : c.ahead = front ++ [closing]) : blockEnd c = front.isEmpty := by
  cases front with
  | nil => simp [blockEnd, isAtEnd, hahead, isAt_of_ahead _ hahead, hclosing]
  | cons token front =>
    have hkind := (hfree token (by simp)).2
    simp [blockEnd, isAtEnd, hahead, isAt_of_ahead _ hahead, hkind]

/-- One declaration in front of a closing brace. It is read or marked without coming to the brace,
or up to the brace only with a semicolon as its last token. Or else it is malformed, and the brace
is lost with it. -/
theorem declaration_before_closeBrace {node : Node} (hclosing : closing.kind = .closeBrace)
    (hfree : BraceFree front) (hahead : c.ahead = front ++ [closing])
    (hout : Walk.outcome (declaration (nested levels)) c = (node, m)) :
    (∃ used rest found, front = used ++ rest ∧ c.Moves used found m ∧
      (rest = [] → endsStatement used = true) ∧
      [node].filter Node.isMarker = found.map (SyntaxError.marker c.file)) ∨
    m.ahead = [] ∧ endsStatement front = false ∧ ∃ used error, c.Moves used [error] m := by
  have hcovers := covers_attempt levels (blockFree_of_ahead hclosing hfree hahead)
  rcases hattempt : outcome (attempt (nested levels)) c with ⟨error | read, m'⟩
  · rw [outcome_declaration_of_error hattempt, Prod.mk.injEq] at hout
    obtain ⟨rfl, rfl⟩ := hout
    obtain ⟨used, hmoves, hused, hended⟩ := hcovers.of_error hattempt
    obtain ⟨back, rfl, hback⟩ :=
      exists_eq_append_of_closeBrace hclosing hused (hahead.symm.trans hmoves.ahead)
    rcases recover_before_closeBrace hclosing hback error with
      ⟨skipped, rest, rfl, hrecover, hends⟩ | ⟨hnil, hends⟩
    · refine .inl ⟨used ++ skipped, rest, [error], by simp, hmoves.trans hrecover,
        fun hrest => ?_, ?_⟩
      · rw [endsStatement_append_of_false hended, hends hrest]
      · rw [hmoves.file]
        rfl
    · obtain ⟨skipped, hrecover, -⟩ := exists_moves_recover m' error
      exact .inr ⟨hnil, by rw [endsStatement_append_of_false hended, hends], used ++ skipped, error,
        hmoves.trans hrecover⟩
  · rw [outcome_declaration_of_ok hattempt, Prod.mk.injEq] at hout
    obtain ⟨rfl, rfl⟩ := hout
    obtain ⟨used, hmoves, hused, hended⟩ := hcovers.of_ok hattempt
    obtain ⟨back, rfl, -⟩ :=
      exists_eq_append_of_closeBrace hclosing hused (hahead.symm.trans hmoves.ahead)
    have hmarker := (readsMarked_attempt (nestedMarked levels) hattempt).isMarker_eq
    exact .inl ⟨used, back, [], rfl, hmoves, fun _ => hended, by simp [hmarker]⟩

/-- What is ahead after a part of the tokens in front of the brace. -/
theorem ahead_of_moves {used rest : List Token} {found : List SyntaxError}
    (hahead : c.ahead = used ++ rest ++ [closing]) (hmoves : c.Moves used found m) :
    m.ahead = rest ++ [closing] := by
  have hall := hmoves.ahead
  rw [hahead, List.append_assoc] at hall
  exact (List.append_cancel_left hall).symm

/-- If a semicolon stands in front of the closing brace, then the loop stops there, and every error
that it records has its marker. -/
theorem Rounds.moves_of_ended (hclosing : closing.kind = .closeBrace)
    (hrounds : Rounds blockEnd (declaration (nested levels)) c parts c') (hfree : BraceFree front)
    (hahead : c.ahead = front ++ [closing]) (hended : front = [] ∨ endsStatement front = true) :
    ∃ found, c.Moves front found c' ∧
      (parts.map Prod.snd).filter Node.isMarker = found.map (SyntaxError.marker c.file) := by
  induction hrounds generalizing front with
  | @done c hstop =>
    rw [blockEnd_eq_isEmpty hclosing hfree hahead, List.isEmpty_iff] at hstop
    subst hstop
    exact ⟨[], Moves.refl c, rfl⟩
  | @next c m _ _ _ node parts hgoes hout _ _ ih =>
    have hne : front ≠ [] := by
      rintro rfl
      simp [blockEnd_eq_isEmpty hclosing hfree hahead] at hgoes
    have hends := hended.resolve_left hne
    obtain ⟨used, rest, found, rfl, hmoves, -, hmarker⟩ | ⟨-, hlost, -⟩ :=
      declaration_before_closeBrace hclosing hfree hahead hout
    · have hrest : rest = [] ∨ endsStatement rest = true := by
        rcases eq_or_ne rest [] with hnil | hnil
        · exact .inl hnil
        · rw [endsStatement_append used hnil] at hends
          exact .inr hends
      obtain ⟨later, hlater, hmarkers⟩ := ih hfree.of_append.2 (ahead_of_moves hahead hmoves) hrest
      refine ⟨found ++ later, hmoves.trans hlater, ?_⟩
      rw [List.map_cons, ← List.singleton_append, List.filter_append, hmarker, hmarkers,
        hmoves.file, List.map_append]
    · rw [hlost] at hends
      cases hends

/-- If another token stands in front of the closing brace, then the loop finds an error and goes
beyond the brace, up to the end. -/
theorem Rounds.moves_of_not_ended (hclosing : closing.kind = .closeBrace)
    (hrounds : Rounds blockEnd (declaration (nested levels)) c parts c') (hfree : BraceFree front)
    (hahead : c.ahead = front ++ [closing]) (hne : front ≠ [])
    (hended : endsStatement front = false) :
    c'.ahead = [] ∧ ∃ used found, c.Moves used found c' ∧ found ≠ [] := by
  induction hrounds generalizing front with
  | done hstop =>
    rw [blockEnd_eq_isEmpty hclosing hfree hahead, List.isEmpty_iff] at hstop
    exact absurd hstop hne
  | @next c m c' _ _ node parts hgoes hout _ hrounds ih =>
    obtain ⟨used, rest, found, rfl, hmoves, hends, -⟩ | ⟨hlost, -, used, error, hmoves⟩ :=
      declaration_before_closeBrace hclosing hfree hahead hout
    · have hnil : rest ≠ [] := by
        rintro rfl
        rw [List.append_nil, hends rfl] at hended
        cases hended
      rw [endsStatement_append used hnil] at hended
      obtain ⟨hend, used', found', hmoves', hfound⟩ :=
        ih hfree.of_append.2 (ahead_of_moves hahead hmoves) hnil hended
      exact ⟨hend, used ++ used', found ++ found', hmoves.trans hmoves', by simp [hfound]⟩
    · -- At the end of the text the loop stops.
      cases hrounds with
      | done => exact ⟨hlost, used, [error], hmoves, by simp⟩
      | next hgoes' => simp [blockEnd, isAtEnd, hlost] at hgoes'

end Grammar

namespace Program

open Cursor Parse Grammar

/-- A program that is one block without its closing brace. -/
theorem outcome_program_of_unclosed {levels : Nat} (hlevels : maxNesting = levels + 1)
    {c m : Cursor} {opening : Terminal .openBrace} {rest : List Token} {nodes : List Node}
    (hahead : c.ahead = opening.val :: rest)
    (hlist : Walk.outcome (declarations blockEnd (declaration (nested levels)))
      (c.behind [opening.val] rest) = (nodes, m)) (hend : m.ahead = []) :
    Walk.outcome program c =
      ([(m.errorHere .unclosedBlock).marker m.file], m.recover (m.errorHere .unclosedBlock)) := by
  have hgoes : c.isAtEnd = false := by simp [isAtEnd, hahead]
  have hstop : (m.recover (m.errorHere .unclosedBlock)).isAtEnd = true := by
    obtain ⟨skipped, hrecover, -⟩ := exists_moves_recover m (m.errorHere .unclosedBlock)
    have hahead := hrecover.ahead
    rw [hend, List.nil_eq_append_iff] at hahead
    rw [isAtEnd, hahead.2, List.isEmpty_nil]
  have hattempt : outcome (attempt (nested maxNesting)) c =
      (.error (m.errorHere .unclosedBlock), m) := by
    rw [outcome_attempt, isAt_terminal opening .varWord hahead, if_neg (by decide), hlevels,
      Derivation.outcome_statement_of_openBrace hahead hlist,
      outcome_bind_of_error (outcome_expect_of_not_isAt _ (isAt_of_ahead_nil _ hend))]
  rw [program, outermost,
    outcome_declarations_of_error (nestedFollows maxNesting) endsList_isAtEnd hgoes hattempt,
    outcome_declarations_of_stop hstop]

/-- The tokens between two braces. -/
def inBraces (opening : Terminal .openBrace) (inside : List Token)
    (closing : Terminal .closeBrace) : List Token :=
  opening.val :: (inside ++ [closing.val])

section Braces

variable (file : Option String) {inside : List Token} (opening : Terminal .openBrace)
  (closing : Terminal .closeBrace) (endLine : Nat)

/-- Behind a semicolon the closing brace ends the block, and its markers are those of the errors. -/
theorem statements_inBraces_of_ended (hfree : BraceFree inside)
    (hended : inside = [] ∨ endsStatement inside = true) :
    ∃ nodes, (ofTokens file ⟨inBraces opening inside closing, endLine⟩).statements =
        [.block nodes (some opening.val.line)] ∧
      nodes.filter Node.isMarker =
        (ofTokens file ⟨inBraces opening inside closing, endLine⟩).errors.map
          (SyntaxError.marker file) := by
  obtain ⟨levels, hlevels⟩ : ∃ levels, maxNesting = levels + 1 := ⟨47, rfl⟩
  let c := start file ⟨inBraces opening inside closing, endLine⟩
  have hahead : c.ahead = opening.val :: (inside ++ [closing.val]) := rfl
  obtain ⟨parts, m, hrounds, hlist⟩ := exists_rounds (nestedFollows levels) endsList_blockEnd
    (c.behind [opening.val] (inside ++ [closing.val]))
  obtain ⟨found, hmoves, hmarkers⟩ := hrounds.moves_of_ended closing.property hfree rfl hended
  have hend : m.ahead = [closing.val] := (List.append_cancel_left hmoves.ahead).symm
  have hblock := outcome_program_of_block hlevels hahead hlist hend
  have hfound : m.errors.toList = found := hmoves.errors
  refine ⟨parts.map Prod.snd, by rw [statements_ofTokens, hblock], ?_⟩
  rw [errors_ofTokens, hblock, errors_behind, hfound]
  exact hmarkers

/-- Behind any other token the closing brace is lost, and one marker for the unclosed block is all
that is left of it. -/
theorem statements_inBraces_of_not_ended (hfree : BraceFree inside) (hne : inside ≠ [])
    (hended : endsStatement inside = false) :
    ∃ earlier error, (ofTokens file ⟨inBraces opening inside closing, endLine⟩).errors =
        earlier ++ [error] ∧ earlier ≠ [] ∧ error.complaint = .unclosedBlock ∧
      error.found = none ∧ error.line = endLine ∧
      (ofTokens file ⟨inBraces opening inside closing, endLine⟩).statements =
        [error.marker file] := by
  obtain ⟨levels, hlevels⟩ : ∃ levels, maxNesting = levels + 1 := ⟨47, rfl⟩
  let c := start file ⟨inBraces opening inside closing, endLine⟩
  have hahead : c.ahead = opening.val :: (inside ++ [closing.val]) := rfl
  obtain ⟨parts, m, hrounds, hlist⟩ := exists_rounds (nestedFollows levels) endsList_blockEnd
    (c.behind [opening.val] (inside ++ [closing.val]))
  obtain ⟨hend, used, found, hmoves, hne'⟩ :=
    hrounds.moves_of_not_ended closing.property hfree rfl hne hended
  have hblock := outcome_program_of_unclosed hlevels hahead hlist hend
  have hfound : m.errors.toList = found := hmoves.errors
  refine ⟨found, m.errorHere .unclosedBlock, ?_, hne', rfl, ?_, ?_, ?_⟩
  · obtain ⟨skipped, hrecover, -⟩ := exists_moves_recover m (m.errorHere .unclosedBlock)
    rw [errors_ofTokens, hblock, ← hfound]
    exact hrecover.errors
  · exact current?_of_ahead_nil hend
  · rw [errorHere, line, current?_of_ahead_nil hend]
    exact hmoves.endLine
  · rw [statements_ofTokens, hblock, show m.file = file from hmoves.file]

/-- Which blocks survive the malformed statements in them, if there are no further braces. A block
is kept if there is nothing in it or a semicolon stands in front of its closing brace, and only
then. A block that is kept has one marker for every error, in order. A block that is not is replaced
by the marker for a missing closing brace, at the end of the text, and the markers for the errors
before are gone with the block. -/
theorem block_survives_iff (hfree : BraceFree inside) :
    ((∃ nodes line, (ofTokens file ⟨inBraces opening inside closing, endLine⟩).statements =
        [.block nodes line]) ↔ inside = [] ∨ endsStatement inside = true) ∧
    (∀ nodes line, (ofTokens file ⟨inBraces opening inside closing, endLine⟩).statements =
        [.block nodes line] →
      line = some opening.val.line ∧ nodes.filter Node.isMarker =
        (ofTokens file ⟨inBraces opening inside closing, endLine⟩).errors.map
          (SyntaxError.marker file)) ∧
    ((∀ nodes line, (ofTokens file ⟨inBraces opening inside closing, endLine⟩).statements ≠
        [.block nodes line]) →
      ∃ earlier error, (ofTokens file ⟨inBraces opening inside closing, endLine⟩).errors =
          earlier ++ [error] ∧ earlier ≠ [] ∧ error.complaint = .unclosedBlock ∧
        error.found = none ∧ error.line = endLine ∧
        (ofTokens file ⟨inBraces opening inside closing, endLine⟩).statements =
          [error.marker file]) := by
  by_cases hended : inside = [] ∨ endsStatement inside = true
  · obtain ⟨nodes, hnodes, hmarkers⟩ :=
      statements_inBraces_of_ended file opening closing endLine hfree hended
    refine ⟨⟨fun _ => hended, fun _ => ⟨nodes, _, hnodes⟩⟩, fun nodes' line hkept => ?_,
      fun hlost => absurd hnodes (hlost nodes _)⟩
    rw [hnodes, List.singleton_inj, Node.block.injEq] at hkept
    obtain ⟨rfl, rfl⟩ := hkept
    exact ⟨rfl, hmarkers⟩
  · obtain ⟨hne, hends⟩ := not_or.mp hended
    have hlost := statements_inBraces_of_not_ended file opening closing endLine hfree hne
      (Bool.eq_false_iff.mpr hends)
    have hnone (nodes : List Node) (line : SourceLine) :
        (ofTokens file ⟨inBraces opening inside closing, endLine⟩).statements ≠
          [.block nodes line] := by
      obtain ⟨-, error, -, -, -, -, -, hmarker⟩ := hlost
      rw [hmarker, ne_eq, List.singleton_inj]
      exact nofun
    exact ⟨⟨fun ⟨nodes, line, hkept⟩ => absurd hkept (hnone nodes line), fun h => absurd h hended⟩,
      fun nodes line hkept => absurd hkept (hnone nodes line), fun _ => hlost⟩

end Braces

/-- An opening brace on the first line. -/
def openBrace : Terminal .openBrace := ⟨⟨.openBrace, "\x7b", 1⟩, rfl⟩

/-- A closing brace on the first line. -/
def closeBrace : Terminal .closeBrace := ⟨⟨.closeBrace, "\x7d", 1⟩, rfl⟩

/-- The tokens of `print * ; x = 1 ;`. -/
def brokenPrint : List Token :=
  [⟨.printWord, "print", 1⟩, ⟨.times, "*", 1⟩, ⟨.semicolon, ";", 1⟩, ⟨.name, "x", 1⟩,
    ⟨.assign, "=", 1⟩, ⟨.number, "1", 1⟩, ⟨.semicolon, ";", 1⟩]

/-- A malformed statement with its semicolon, and another statement behind it. -/
theorem block_survives_iff_brokenPrint :
    BraceFree brokenPrint ∧ endsStatement brokenPrint = true ∧
    ∃ nodes line, (ofTokens none ⟨inBraces openBrace brokenPrint closeBrace, 1⟩).statements =
      [.block nodes line] := by
  have hfree : BraceFree brokenPrint := by unfold BraceFree; decide
  have hended : endsStatement brokenPrint = true := by decide
  exact ⟨hfree, hended,
    (block_survives_iff none openBrace closeBrace 1 hfree).1.mpr (.inr hended)⟩

/-- The tokens of `print 1`. -/
def unendedPrint : List Token := [⟨.printWord, "print", 1⟩, ⟨.number, "1", 1⟩]

/-- Of a print statement in braces that lacks its semicolon only a marker is left. -/
theorem block_lost_without_semicolon :
    BraceFree unendedPrint ∧
    ¬ ∃ nodes line, (ofTokens none ⟨inBraces openBrace unendedPrint closeBrace, 1⟩).statements =
      [.block nodes line] := by
  refine ⟨by unfold BraceFree; decide, ?_⟩
  rintro ⟨nodes, line, hkept⟩
  have hmarkers : (ofTokens none ⟨inBraces openBrace unendedPrint closeBrace, 1⟩).statements.map
      Node.isMarker = [true] := by decide +kernel
  rw [hkept] at hmarkers
  cases hmarkers

end Program

end ScriptKit
