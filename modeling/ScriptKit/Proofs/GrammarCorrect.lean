import ScriptKit.Proofs.Completeness
import ScriptKit.Proofs.Soundness

/-!
# Reading follows the grammar

A list of tokens is read without an error exactly if it has a derivation within the allowed levels,
and then the statements read are the tree of the derivation, of which there is only one.
-/

set_option autoImplicit false

namespace ScriptKit

open Grammar

namespace Program

/-- A text that can be scanned is a program. -/
theorem ofText_of_tokens (file : Option String) {text : String} {tokens : TokenList}
    (h : TokenList.ofText text = .ok tokens) :
    Program.ofText file text = .ok (ofTokens file tokens) := by
  rw [Program.ofText, h]
  rfl

/-- A program that can be scanned is that of its tokens. -/
theorem exists_tokens_of_ofText {file : Option String} {text : String} {program : Program}
    (h : Program.ofText file text = .ok program) :
    ∃ tokens, TokenList.ofText text = .ok tokens ∧ program = ofTokens file tokens := by
  unfold Program.ofText at h
  cases htokens : TokenList.ofText text with
  | error stray =>
    rw [htokens] at h
    cases h
  | ok tokens =>
    rw [htokens] at h
    exact ⟨tokens, rfl, (Except.ok.inj h).symm⟩

/-- The statements of a program are the result of the walk over its tokens. -/
theorem statements_ofTokens (file : Option String) (tokens : TokenList) :
    (ofTokens file tokens).statements =
      (Walk.outcome program (Cursor.start file tokens)).1 := rfl

/-- The errors of a program are those recorded on the walk over its tokens. -/
theorem errors_ofTokens (file : Option String) (tokens : TokenList) :
    (ofTokens file tokens).errors =
      (Walk.outcome program (Cursor.start file tokens)).2.errors.toList := rfl

/-- A walk over the tokens of a derivation gives its tree. -/
theorem outcome_program_of_derivation {d : Derivation .declarations}
    (hfits : d.FitsIn maxNesting) {c : Cursor} (hahead : c.ahead = d.tokens) :
    Walk.outcome program c = (d.tree, c.behind d.tokens []) := by
  have hread : Derivation.ReadsDeclarations d := d.reads
  have hend : (c.behind d.tokens []).isAtEnd = true := rfl
  rw [program, outermost, hread endsList_isAtEnd hfits (by rw [hahead, List.append_nil])
      (by simp),
    outcome_declarations_of_stop hend, List.append_nil]

/-- A walk that records no error goes over the tokens of a derivation. -/
theorem exists_derivation_of_outcome_program {c c' : Cursor} {nodes : List Node}
    (hout : Walk.outcome program c = (nodes, c')) (herrors : c'.errors = c.errors) :
    ∃ d : Derivation .declarations, d.FitsIn maxNesting ∧ d.tokens = c.ahead ∧ d.tree = nodes := by
  obtain ⟨⟨d, hfits, htree, hmoves⟩, hend⟩ := derives_declarations endsList_isAtEnd
    (nestedFollows maxNesting) (nestedDerives maxNesting) hout herrors
  have hnil : c'.ahead = [] := List.isEmpty_iff.mp hend
  exact ⟨d, hfits, by rw [hmoves.ahead, hnil, List.append_nil], htree⟩

/-- A program without errors is the tree of a derivation of its tokens. -/
theorem exists_derivation_of_errors_eq_nil {file : Option String} {tokens : TokenList}
    (h : (ofTokens file tokens).errors = []) :
    ∃ d : Derivation .declarations, d.FitsIn maxNesting ∧ d.tokens = tokens.tokens ∧
      d.tree = (ofTokens file tokens).statements := by
  rw [errors_ofTokens, Array.toList_eq_nil_iff] at h
  exact exists_derivation_of_outcome_program Prod.mk.eta.symm h

/-- The program that the tokens of a derivation spell. -/
theorem ofTokens_of_derivation {d : Derivation .declarations} (hfits : d.FitsIn maxNesting)
    (file : Option String) {tokens : TokenList} (htokens : d.tokens = tokens.tokens) :
    (ofTokens file tokens).statements = d.tree ∧ (ofTokens file tokens).errors = [] := by
  have hahead : (Cursor.start file tokens).ahead = d.tokens := htokens.symm
  rw [statements_ofTokens, errors_ofTokens, outcome_program_of_derivation hfits hahead]
  exact ⟨rfl, rfl⟩

/-- Tokens are read without an error exactly if the grammar derives them with no more than
`maxNesting` levels, variables to the left of assignment marks and every `else` at the nearest `if`
without one. The derivation is then unique, and the statements are its tree. -/
theorem errors_eq_nil_iff_derivable (file : Option String) (tokens : TokenList) :
    ((ofTokens file tokens).errors = [] ↔
      ∃ d : Derivation .declarations, d.FitsIn maxNesting ∧ d.tokens = tokens.tokens) ∧
    ∀ d : Derivation .declarations, d.FitsIn maxNesting → d.tokens = tokens.tokens →
      (ofTokens file tokens).statements = d.tree ∧
      ∀ d' : Derivation .declarations, d'.FitsIn maxNesting → d'.tokens = tokens.tokens →
        d' = d := by
  refine ⟨⟨fun h => ?_, fun ⟨d, hfits, htokens⟩ => ?_⟩, fun d hfits htokens => ⟨?_, ?_⟩⟩
  · obtain ⟨d, hfits, htokens, -⟩ := exists_derivation_of_errors_eq_nil h
    exact ⟨d, hfits, htokens⟩
  · exact (ofTokens_of_derivation hfits file htokens).2
  · exact (ofTokens_of_derivation hfits file htokens).1
  · intro d' hfits' htokens'
    exact Derivation.eq_of_tokens_eq hfits'.bindsElses hfits.bindsElses
      (htokens'.trans htokens.symm)

/-- The derivation of an expression that is a variable. -/
def variableDerivation (token : Terminal .name) : Derivation .expression :=
  .plain (.chain (.chain (.chain (.chain (.reference token) .done) .done) .done) .done)

/-- The derivation of `if (a) if (b) c; else d;` in which the `else` belongs to the second `if`. -/
def danglingElse : Derivation .declarations :=
  .next (.statement (.ifThen ⟨⟨.ifWord, "if", 1⟩, rfl⟩ ⟨⟨.openParen, "(", 1⟩, rfl⟩
    (variableDerivation ⟨⟨.name, "a", 1⟩, rfl⟩) ⟨⟨.closeParen, ")", 1⟩, rfl⟩
    (.ifElse ⟨⟨.ifWord, "if", 1⟩, rfl⟩ ⟨⟨.openParen, "(", 1⟩, rfl⟩
      (variableDerivation ⟨⟨.name, "b", 1⟩, rfl⟩) ⟨⟨.closeParen, ")", 1⟩, rfl⟩
      (.evaluate (variableDerivation ⟨⟨.name, "c", 1⟩, rfl⟩) ⟨⟨.semicolon, ";", 1⟩, rfl⟩)
      ⟨⟨.elseWord, "else", 1⟩, rfl⟩
      (.evaluate (variableDerivation ⟨⟨.name, "d", 1⟩, rfl⟩) ⟨⟨.semicolon, ";", 1⟩, rfl⟩)))) .empty

/-- The nearest `if` takes the `else`. -/
theorem statements_danglingElse :
    danglingElse.FitsIn maxNesting ∧
    (ofTokens none ⟨danglingElse.tokens, 1⟩).errors = [] ∧
    (ofTokens none ⟨danglingElse.tokens, 1⟩).statements =
      [.ifThen (.reference "a" (some 1))
        (.ifElse (.reference "b" (some 1)) (.evaluate (.reference "c" (some 1)) (some 1))
          (.evaluate (.reference "d" (some 1)) (some 1)) (some 1)) (some 1)] := by
  have hfits : danglingElse.FitsIn maxNesting := ⟨by decide, rfl, rfl⟩
  have hread := errors_eq_nil_iff_derivable none ⟨danglingElse.tokens, 1⟩
  exact ⟨hfits, hread.1.mpr ⟨danglingElse, hfits, rfl⟩, (hread.2 danglingElse hfits rfl).1⟩

end Program

end ScriptKit
