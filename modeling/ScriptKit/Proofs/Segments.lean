import ScriptKit.Proofs.GrammarCorrect
import ScriptKit.Proofs.ReaderState

/-!
# Declarations one after the other

However malformed the tokens are, reading them comes to the end. Every declaration passes a token,
by what it reads or by its recovery, so the loops over declarations have finitely many rounds.
`Rounds` is such a loop as a relation, with no bound on the number of rounds; the loops of the
grammar, which count rounds, follow it. At the outermost level the rounds cut the tokens into
parts, one for each statement and none of them empty.
-/

set_option autoImplicit false

namespace ScriptKit

namespace Grammar

open Cursor Parse

/-- The rounds of a loop over declarations: while `stop` does not hold, one declaration is read.
Each round is listed with the tokens that it passes and the node that it gives. -/
inductive Rounds (stop : Cursor → Bool) (declaration : Walk Node) :
    Cursor → List (List Token × Node) → Cursor → Prop where
  | done {c : Cursor} (hstop : stop c = true) : Rounds stop declaration c [] c
  | next {c m c' : Cursor} {tokens : List Token} {found : List SyntaxError} {node : Node}
      {parts : List (List Token × Node)} (hgoes : stop c = false)
      (hout : Walk.outcome declaration c = (node, m)) (hmoves : c.Moves tokens found m)
      (hrest : Rounds stop declaration m parts c') :
      Rounds stop declaration c ((tokens, node) :: parts) c'

variable {stop : Cursor → Bool} {inner : Nested} {c c' : Cursor}
  {parts : List (List Token × Node)}

/-- The rounds end where the loop stops. -/
theorem Rounds.stop_eq {declaration : Walk Node} (h : Rounds stop declaration c parts c') :
    stop c' = true := by
  induction h with
  | done hstop => exact hstop
  | next _ _ _ _ ih => exact ih

/-- The rounds pass their parts, one after the other. -/
theorem Rounds.exists_moves {declaration : Walk Node} (h : Rounds stop declaration c parts c') :
    ∃ found, c.Moves (parts.map Prod.fst).flatten found c' := by
  induction h with
  | @done c _ => exact ⟨[], Moves.refl c⟩
  | next _ _ hmoves _ ih =>
    obtain ⟨found, hrest⟩ := ih
    exact ⟨_, hmoves.trans hrest⟩

/-- In front of a token a declaration goes forward, whether it succeeds or recovers. -/
theorem position_lt_declaration (h : NestedFollows inner) (hahead : c.ahead ≠ []) :
    c.position < (Walk.outcome (declaration inner) c).2.position := by
  have hlt := length_declaration_lt h hahead
  obtain ⟨tokens, found, hmoves⟩ := Steps.exists_moves (steps_declaration h c)
  rw [hmoves.ahead, List.length_append] at hlt
  rw [hmoves.position_eq]
  omega

/-- No round passes nothing. -/
theorem Rounds.ne_nil (h : NestedFollows inner) (hend : EndsList stop)
    (hrounds : Rounds stop (declaration inner) c parts c') : ∀ part ∈ parts, part.1 ≠ [] := by
  induction hrounds with
  | done => simp
  | @next c m _ tokens _ _ _ hgoes hout hmoves _ ih =>
    have hahead : c.ahead ≠ [] := fun hnil => by simp [hend.at_end c hnil] at hgoes
    have hlt := position_lt_declaration h hahead
    rw [hout, hmoves.position_eq] at hlt
    have htokens : tokens ≠ [] := by
      rintro rfl
      simp at hlt
    rintro part (_ | ⟨_, hpart⟩)
    · exact htokens
    · exact ih part hpart

/-- The loop of the grammar, which counts its rounds, follows the loop that does not. -/
theorem exists_rounds (h : NestedFollows inner) (hend : EndsList stop) (c : Cursor) :
    ∃ parts c', Rounds stop (declaration inner) c parts c' ∧
      Walk.outcome (declarations stop (declaration inner)) c = (parts.map Prod.snd, c') := by
  induction hn : c.ahead.length using Nat.strongRecOn generalizing c with
  | ind n ih =>
    cases hstop : stop c with
    | true => exact ⟨[], c, .done hstop, outcome_declarations_of_stop hstop⟩
    | false =>
      have hahead : c.ahead ≠ [] := fun hnil => by simp [hend.at_end c hnil] at hstop
      have hlt := length_declaration_lt h hahead
      obtain ⟨tokens, found, hmoves⟩ := Steps.exists_moves (steps_declaration h c)
      rcases hout : Walk.outcome (declaration inner) c with ⟨node, m⟩
      rw [hout] at hlt hmoves
      obtain ⟨parts, c', hrounds, hrest⟩ := ih m.ahead.length (hn ▸ hlt) m rfl
      refine ⟨(tokens, node) :: parts, c', .next hstop hout hmoves hrounds, ?_⟩
      rw [outcome_declarations_of_not_stop hend (fun _ => length_declaration_lt h) hstop hout,
        hrest]
      rfl

/-- A call for the whole program is always answered, with what the walk over a program reads. -/
theorem outcome_rule_program (c : Cursor) :
    outcome (Call.program.rule outermost) c =
      (.ok (.nodes (Walk.outcome program c).1), (Walk.outcome program c).2) := rfl

/-- Reading a program never fails. It stops at the end of the text, and its statements belong in
order to parts of the tokens, none of them empty, that make up all of them. At every level and
wherever a token is ahead, a declaration goes forward, so the rounds between braces end too. -/
theorem rounds_program (file : Option String) (tokens : TokenList) :
    (∃ (parts : List (List Token × Node)) (last : Reader),
      (Reader.start file tokens).call .program = (.ok (.nodes (parts.map Prod.snd)), last) ∧
      (Program.ofTokens file tokens).statements = parts.map Prod.snd ∧
      last.cursor.isAtEnd = true ∧ last.cursor.position = tokens.tokens.length ∧
      Rounds isAtEnd (declaration outermost) (Cursor.start file tokens) parts last.cursor ∧
      (parts.map Prod.fst).flatten = tokens.tokens ∧ ∀ part ∈ parts, part.1 ≠ []) ∧
    ∀ (levels : Nat) (c : Cursor),
      (c.ahead ≠ [] → c.position < (Walk.outcome (declaration (nested levels)) c).2.position) ∧
      ∃ parts c', Rounds blockEnd (declaration (nested levels)) c parts c' ∧
        Walk.outcome (declarations blockEnd (declaration (nested levels))) c =
          (parts.map Prod.snd, c') ∧
        ∀ part ∈ parts, part.1 ≠ [] := by
  constructor
  · have hfollows := nestedFollows maxNesting
    obtain ⟨parts, c', hrounds, hout⟩ :=
      exists_rounds hfollows endsList_isAtEnd (Cursor.start file tokens)
    obtain ⟨deepest, -, hcall⟩ := (Reader.ready_start file tokens).call_eq .program
    have hprogram : Walk.outcome program (Cursor.start file tokens) =
      (parts.map Prod.snd, c') := hout
    have hanswer := outcome_rule_program (Reader.start file tokens).cursor
    rw [Reader.start, hprogram] at hanswer
    obtain ⟨found, hmoves⟩ := hrounds.exists_moves
    have hnil : c'.ahead = [] := List.isEmpty_iff.mp hrounds.stop_eq
    have htokens : tokens.tokens = (parts.map Prod.fst).flatten := by
      have hahead := hmoves.ahead
      rwa [hnil, List.append_nil] at hahead
    refine ⟨parts, ⟨c', 0, deepest⟩, ?_, ?_, hrounds.stop_eq, ?_, hrounds, htokens.symm,
      hrounds.ne_nil hfollows endsList_isAtEnd⟩
    · rw [hcall, Reader.start, hanswer]
    · rw [Program.statements_ofTokens, hprogram]
    · rw [hmoves.position_eq, htokens]
      exact Nat.zero_add _
  · intro levels c
    have hfollows := nestedFollows levels
    obtain ⟨parts, c', hrounds, hout⟩ := exists_rounds hfollows endsList_blockEnd c
    exact ⟨position_lt_declaration hfollows, parts, c', hrounds, hout,
      hrounds.ne_nil hfollows endsList_blockEnd⟩

/-- The tokens of `} if ( { ;`. -/
def scraps : List Token :=
  [⟨.closeBrace, "\x7d", 1⟩, ⟨.ifWord, "if", 1⟩, ⟨.openParen, "(", 1⟩, ⟨.openBrace, "\x7b", 1⟩,
    ⟨.semicolon, ";", 1⟩]

/-- Of scraps, too, each declaration takes its part, also where no level is left. -/
theorem rounds_program_scraps :
    (∃ parts : List (List Token × Node),
      (Program.ofTokens none ⟨scraps, 1⟩).statements = parts.map Prod.snd ∧
      (parts.map Prod.fst).flatten = scraps ∧ ∀ part ∈ parts, part.1 ≠ []) ∧
    (Cursor.start none ⟨scraps, 1⟩).ahead ≠ [] ∧
    (Cursor.start none ⟨scraps, 1⟩).position <
      (Walk.outcome (declaration (nested 0)) (Cursor.start none ⟨scraps, 1⟩)).2.position := by
  obtain ⟨⟨parts, -, -, hstatements, -, -, -, htokens, hsome⟩, hlevels⟩ :=
    rounds_program none ⟨scraps, 1⟩
  have hahead : (Cursor.start none ⟨scraps, 1⟩).ahead ≠ [] := by simp [Cursor.start, scraps]
  exact ⟨⟨parts, hstatements, htokens, hsome⟩, hahead, (hlevels 0 _).1 hahead⟩

end Grammar

end ScriptKit
