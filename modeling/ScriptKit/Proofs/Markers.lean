import ScriptKit.Proofs.Segments

/-!
# Markers and errors

An error is recorded as soon as its statement is given up, and a marker takes the place of the
statement. If the block around it is given up later, then one marker takes the place of all that
was read in the block, and the errors found there are left without theirs. So the markers of a
tree speak of some of the errors, in order, and of the last one always. `Accounts` says this of the
way from one cursor to another. It is kept where two ways follow each other, and where a statement
is given up it holds afresh, whatever was recorded before.
-/

set_option autoImplicit false

namespace ScriptKit

/-- What a marker says of an error in a text of the given name. -/
def SyntaxError.mark (file : Option String) (error : SyntaxError) : String × SourceLine :=
  ((error.report file).message, some error.line)

namespace Node

mutual

/-- What the markers in a tree say, in the order in which they stand there. -/
@[simp] def markers : Node → List (String × SourceLine)
  | literal .. | reference .. | declare .. | unknown .. => []
  | binary _ lhs rhs _ => lhs.markers ++ rhs.markers
  | assign _ value _ => value.markers
  | evaluate expression _ => expression.markers
  | define _ initial _ => initial.markers
  | print expression _ => expression.markers
  | ifThen condition thenBranch _ => condition.markers ++ thenBranch.markers
  | ifElse condition thenBranch elseBranch _ =>
    condition.markers ++ (thenBranch.markers ++ elseBranch.markers)
  | loop condition body _ => condition.markers ++ body.markers
  | block statements _ => markersOf statements
  | skipped message line => [(message, line)]

/-- What the markers in the trees of a list say. -/
@[simp] def markersOf : List Node → List (String × SourceLine)
  | [] => []
  | first :: rest => first.markers ++ markersOf rest

end

mutual

/-- Is every marker below the node a statement of some block, and never a branch or a part of an
expression? -/
@[simp] def placesMarkers : Node → Bool
  | literal .. | reference .. | declare .. | skipped .. | unknown .. => true
  | binary _ lhs rhs _ => !lhs.isMarker && lhs.placesMarkers && (!rhs.isMarker && rhs.placesMarkers)
  | assign _ value _ => !value.isMarker && value.placesMarkers
  | evaluate expression _ => !expression.isMarker && expression.placesMarkers
  | define _ initial _ => !initial.isMarker && initial.placesMarkers
  | print expression _ => !expression.isMarker && expression.placesMarkers
  | ifThen condition thenBranch _ =>
    !condition.isMarker && condition.placesMarkers &&
      (!thenBranch.isMarker && thenBranch.placesMarkers)
  | ifElse condition thenBranch elseBranch _ =>
    !condition.isMarker && condition.placesMarkers &&
      (!thenBranch.isMarker && thenBranch.placesMarkers) &&
      (!elseBranch.isMarker && elseBranch.placesMarkers)
  | loop condition body _ =>
    !condition.isMarker && condition.placesMarkers && (!body.isMarker && body.placesMarkers)
  | block statements _ => placeMarkers statements

/-- The same for the trees of a list, in which markers may stand. -/
@[simp] def placeMarkers : List Node → Bool
  | [] => true
  | first :: rest => first.placesMarkers && placeMarkers rest

end

/-- The node may be a branch: it is no marker, and the markers in it stand in blocks. -/
structure Governable (node : Node) : Prop where
  isMarker_eq : node.isMarker = false
  placesMarkers_eq : node.placesMarkers = true

/-- A conditional may be a branch if its parts may. -/
theorem governable_ifThen {condition thenBranch : Node} (hcondition : condition.Governable)
    (hthen : thenBranch.Governable) (line : SourceLine) :
    (ifThen condition thenBranch line).Governable := by
  refine ⟨rfl, ?_⟩
  simp [hcondition.isMarker_eq, hcondition.placesMarkers_eq, hthen.isMarker_eq,
    hthen.placesMarkers_eq]

/-- A conditional with two branches may be a branch if its parts may. -/
theorem governable_ifElse {condition thenBranch elseBranch : Node}
    (hcondition : condition.Governable) (hthen : thenBranch.Governable)
    (helse : elseBranch.Governable) (line : SourceLine) :
    (ifElse condition thenBranch elseBranch line).Governable := by
  refine ⟨rfl, ?_⟩
  simp [hcondition.isMarker_eq, hcondition.placesMarkers_eq, hthen.isMarker_eq,
    hthen.placesMarkers_eq, helse.isMarker_eq, helse.placesMarkers_eq]

/-- A loop may be a branch if its parts may. -/
theorem governable_loop {condition body : Node} (hcondition : condition.Governable)
    (hbody : body.Governable) (line : SourceLine) : (loop condition body line).Governable := by
  refine ⟨rfl, ?_⟩
  simp [hcondition.isMarker_eq, hcondition.placesMarkers_eq, hbody.isMarker_eq,
    hbody.placesMarkers_eq]

/-- A block may be a branch, and it may have markers among its statements. -/
theorem governable_block {statements : List Node} (h : placeMarkers statements = true)
    (line : SourceLine) : (block statements line).Governable :=
  ⟨rfl, by simpa using h⟩

/-- There is no marker in the tree. -/
structure Unmarked (node : Node) : Prop extends Governable node where
  markers_eq : node.markers = []

/-- An operation has no marker in it if its operands have none. -/
theorem unmarked_binary {lhs rhs : Node} (hlhs : lhs.Unmarked) (hrhs : rhs.Unmarked)
    (op : Operator) (line : SourceLine) : (binary op lhs rhs line).Unmarked := by
  refine ⟨⟨rfl, ?_⟩, by simp [hlhs.markers_eq, hrhs.markers_eq]⟩
  simp [hlhs.isMarker_eq, hlhs.placesMarkers_eq, hrhs.isMarker_eq, hrhs.placesMarkers_eq]

/-- A form with one part holds what its part holds. -/
theorem Unmarked.of_part {part node : Node} (h : part.Unmarked) (hnode : node.isMarker = false)
    (hplaces : node.placesMarkers = (!part.isMarker && part.placesMarkers))
    (hmarkers : node.markers = part.markers) : node.Unmarked :=
  ⟨⟨hnode, by simp [hplaces, h.isMarker_eq, h.placesMarkers_eq]⟩, hmarkers.trans h.markers_eq⟩

end Node

namespace Grammar

open Cursor Parse Node

namespace Derivation

/-- There is no marker in the tree of the derivation. -/
def TreeUnmarked : {s : Symbol} → Derivation s → Prop
  | .operand _, d | .expression, d | .statement, d | .declaration, d => Node.Unmarked d.tree
  | .rest _, d => ∀ left : Node, left.Unmarked → Node.Unmarked (d.tree left)
  | .declarations, d => markersOf d.tree = [] ∧ placeMarkers d.tree = true

/-- What the grammar derives holds no marker. -/
theorem treeUnmarked {s : Symbol} (d : Derivation s) : d.TreeUnmarked := by
  induction d with
  | literal token => exact ⟨⟨rfl, rfl⟩, rfl⟩
  | reference token => exact ⟨⟨rfl, rfl⟩, rfl⟩
  | group _ _ _ h => exact h
  | chain _ _ hfirst hmore => exact hmore _ hfirst
  | done => exact fun _ h => h
  | operation sign op _ _ _ hoperand hmore =>
    exact fun left hleft => hmore _ (unmarked_binary hleft hoperand op _)
  | plain _ h => exact h
  | assign target _ value htarget hvalue =>
    have hassign : ((assignment? target.tree value.tree).getD target.tree).Unmarked := by
      cases hnode : assignment? target.tree value.tree with
      | none => exact htarget
      | some node =>
        obtain ⟨name, line, rfl⟩ := exists_of_assignment?_eq_some hnode
        exact hvalue.of_part rfl rfl rfl
    exact hassign
  | print _ _ _ h => exact h.of_part rfl rfl rfl
  | ifThen _ _ _ _ _ hcondition hthen =>
    exact ⟨governable_ifThen hcondition.toGovernable hthen.toGovernable _,
      by simp [hcondition.markers_eq, hthen.markers_eq]⟩
  | ifElse _ _ _ _ _ _ _ hcondition hthen helse =>
    exact ⟨governable_ifElse hcondition.toGovernable hthen.toGovernable helse.toGovernable _,
      by simp [hcondition.markers_eq, hthen.markers_eq, helse.markers_eq]⟩
  | loop _ _ _ _ _ hcondition hbody =>
    exact ⟨governable_loop hcondition.toGovernable hbody.toGovernable _,
      by simp [hcondition.markers_eq, hbody.markers_eq]⟩
  | block _ _ _ h => exact ⟨governable_block h.2 _, by simpa using h.1⟩
  | evaluate _ _ h => exact h.of_part rfl rfl rfl
  | declare => exact ⟨⟨rfl, rfl⟩, rfl⟩
  | define _ _ _ _ _ h => exact h.of_part rfl rfl rfl
  | statement _ h => exact h
  | empty => exact ⟨rfl, rfl⟩
  | next _ _ hfirst hmore =>
    exact ⟨by simp [hfirst.markers_eq, hmore.1], by simp [hfirst.placesMarkers_eq, hmore.2]⟩

end Derivation

/-- The marks are those of some of the errors recorded on the way from the first cursor to the
second, in order, and the last error is among them. -/
def Accounts (c c' : Cursor) (marks : List (String × SourceLine)) : Prop :=
  ∃ tokens found, c.Moves tokens found c' ∧
    marks.Sublist (found.map (SyntaxError.mark c.file)) ∧
    marks.getLast? = (found.map (SyntaxError.mark c.file)).getLast?

variable {c m c' : Cursor} {marks marks' : List (String × SourceLine)}

/-- Where no error was recorded, no marks account for that. -/
theorem accounts_of_moves {tokens : List Token} (h : c.Moves tokens [] c') : Accounts c c' [] :=
  ⟨tokens, [], h, .refl [], rfl⟩

/-- Marks account for the errors of two ways in a row. -/
theorem Accounts.trans (h : Accounts c m marks) (h' : Accounts m c' marks') :
    Accounts c c' (marks ++ marks') := by
  obtain ⟨tokens, found, hmoves, hsublist, hlast⟩ := h
  obtain ⟨tokens', found', hmoves', hsublist', hlast'⟩ := h'
  rw [hmoves.file] at hsublist' hlast'
  refine ⟨_, _, hmoves.trans hmoves', ?_, ?_⟩
  · rw [List.map_append]
    exact hsublist.append hsublist'
  · -- The last mark is one of the second way, or of the first if nothing was found on the second.
    rw [List.map_append, List.getLast?_append, List.getLast?_append, hlast, hlast']

/-- A move that records nothing adds nothing to account for. -/
theorem Accounts.after_moves {tokens : List Token} (hmoves : c.Moves tokens [] m)
    (h : Accounts m c' marks) : Accounts c c' marks :=
  (accounts_of_moves hmoves).trans h

/-- Where a statement is given up, its own mark is all that is left: it is that of the last error,
whatever was recorded before. -/
theorem accounts_recover {tokens : List Token} {found : List SyntaxError}
    (h : c.Moves tokens found m) (error : SyntaxError) :
    Accounts c (m.recover error) (error.marker m.file).markers := by
  obtain ⟨skipped, hrecover, -⟩ := exists_moves_recover m error
  refine ⟨_, _, h.trans hrecover, ?_, ?_⟩
  · rw [h.file, List.map_append]
    exact List.sublist_append_right _ _
  · rw [h.file, List.map_append, List.getLast?_append]
    rfl

/-- The way to a node that was read: its markers account for the errors, and it may be a branch. -/
structure ReadsMarked (c : Cursor) (node : Node) (c' : Cursor) : Prop extends
    Governable node where
  accounts : Accounts c c' node.markers

/-- The parsers one level further in read nodes whose markers account for the errors. -/
structure NestedMarked (inner : Nested) : Prop where
  body : ∀ {c c' : Cursor} {node : Node}, outcome inner.body c = (.ok node, c') →
    ReadsMarked c node c'
  block : ∀ {c c' : Cursor} {node : Node}, outcome inner.block c = (.ok node, c') →
    ReadsMarked c node c'

section Rules

variable {levels : Nat} {node : Node}

/-- What the grammar derives records nothing and holds no marker. -/
theorem readsMarked_of_unmarked {tokens : List Token} (hmoves : c.Moves tokens [] c')
    (hnode : node.Unmarked) : ReadsMarked c node c' :=
  ⟨hnode.toGovernable, by rw [hnode.markers_eq]; exact accounts_of_moves hmoves⟩

/-- The markers of a loop are those of its body, and they account for its errors. -/
theorem readsMarked_whileStatement (h : NestedMarked (nested levels))
    (hout : outcome (whileStatement (nested levels)) c = (.ok node, c')) :
    ReadsMarked c node c' := by
  obtain ⟨word, opening, condition, closing, m, -, hstart, hout⟩ :=
    derives_condition (nestedFollows levels) (nestedDerives levels) hout
  obtain ⟨body, m', hbody, hout⟩ := outcome_bind_eq_ok.mp hout
  rw [outcome_pure, Prod.mk.injEq, Except.ok.injEq] at hout
  obtain ⟨rfl, rfl⟩ := hout
  have hcondition : Node.Unmarked condition.tree := condition.treeUnmarked
  have hmarked := h.body hbody
  refine ⟨governable_loop hcondition.toGovernable hmarked.toGovernable _, ?_⟩
  rw [markers, hcondition.markers_eq, List.nil_append]
  exact hmarked.accounts.after_moves hstart

/-- The markers of a conditional are those of its branches, and they account for its errors. -/
theorem readsMarked_ifStatement (h : NestedMarked (nested levels))
    (hout : outcome (ifStatement (nested levels)) c = (.ok node, c')) :
    ReadsMarked c node c' := by
  obtain ⟨word, opening, condition, closing, m, -, hstart, hout⟩ :=
    derives_condition (nestedFollows levels) (nestedDerives levels) hout
  obtain ⟨thenBranch, m', hthen, hout⟩ := outcome_bind_eq_ok.mp hout
  have hcondition : Node.Unmarked condition.tree := condition.treeUnmarked
  have hthenMarked := h.body hthen
  rw [outcome_get_bind] at hout
  cases helse : m'.isAt .elseWord with
  | false =>
    rw [helse, if_neg (by decide), outcome_pure, Prod.mk.injEq, Except.ok.injEq] at hout
    obtain ⟨rfl, rfl⟩ := hout
    refine ⟨governable_ifThen hcondition.toGovernable hthenMarked.toGovernable _, ?_⟩
    rw [markers, hcondition.markers_eq, List.nil_append]
    exact hthenMarked.accounts.after_moves hstart
  | true =>
    obtain ⟨otherwise, rest, hahead, hmark⟩ := exists_terminal_of_isAt helse
    rw [helse, if_pos rfl, outcome_advance_bind, advance_of_ahead hahead] at hout
    obtain ⟨elseBranch, m'', helseBranch, hout⟩ := outcome_bind_eq_ok.mp hout
    rw [outcome_pure, Prod.mk.injEq, Except.ok.injEq] at hout
    obtain ⟨rfl, rfl⟩ := hout
    have helseMarked := h.body helseBranch
    refine ⟨governable_ifElse hcondition.toGovernable hthenMarked.toGovernable
      helseMarked.toGovernable _, ?_⟩
    rw [markers, hcondition.markers_eq, List.nil_append]
    exact (hthenMarked.accounts.trans (helseMarked.accounts.after_moves hmark)).after_moves hstart

/-- The markers of a statement account for the errors recorded while it was read. -/
theorem readsMarked_statement (h : NestedMarked (nested levels))
    (hout : outcome (statement (nested levels)) c = (.ok node, c')) : ReadsMarked c node c' := by
  have hfollows := nestedFollows levels
  have hderives := nestedDerives levels
  rw [outcome_statement] at hout
  split_ifs at hout
  -- The branches without nested statements are derived, so nothing was recorded in them.
  · obtain ⟨d, -, rfl, hmoves, -⟩ := derives_printStatement hfollows hderives hout
    exact readsMarked_of_unmarked hmoves d.treeUnmarked
  · exact readsMarked_ifStatement h hout
  · exact readsMarked_whileStatement h hout
  · exact h.block hout
  · obtain ⟨d, -, rfl, hmoves, -⟩ := derives_expressionStatement hfollows hderives hout
    exact readsMarked_of_unmarked hmoves d.treeUnmarked

/-- The markers of a declaration that was read account for the errors recorded on the way. -/
theorem readsMarked_attempt (h : NestedMarked (nested levels))
    (hout : outcome (attempt (nested levels)) c = (.ok node, c')) : ReadsMarked c node c' := by
  rw [outcome_attempt] at hout
  split_ifs at hout
  · obtain ⟨d, -, rfl, hmoves⟩ :=
      derives_varDeclaration (nestedFollows levels) (nestedDerives levels) hout
    exact readsMarked_of_unmarked hmoves d.treeUnmarked
  · exact readsMarked_statement h hout

/-- A declaration is read, or its marker accounts for all that went wrong in it. -/
theorem accounts_declaration (h : NestedMarked (nested levels))
    (hout : Walk.outcome (declaration (nested levels)) c = (node, c')) :
    Accounts c c' node.markers ∧ node.placesMarkers = true := by
  rcases hattempt : outcome (attempt (nested levels)) c with ⟨error | read, m⟩
  · rw [outcome_declaration_of_error hattempt, Prod.mk.injEq] at hout
    obtain ⟨rfl, rfl⟩ := hout
    obtain ⟨tokens, found, hmoves⟩ :=
      Steps.exists_moves ((strides_attempt (nestedFollows levels)).follows.steps hattempt)
    exact ⟨accounts_recover hmoves error, rfl⟩
  · rw [outcome_declaration_of_ok hattempt, Prod.mk.injEq] at hout
    obtain ⟨rfl, rfl⟩ := hout
    have hmarked := readsMarked_attempt h hattempt
    exact ⟨hmarked.accounts, hmarked.placesMarkers_eq⟩

/-- Round after round, the markers of the list account for the errors of the loop. -/
theorem Rounds.accounts {stop : Cursor → Bool} {parts : List (List Token × Node)}
    (h : NestedMarked (nested levels))
    (hrounds : Rounds stop (declaration (nested levels)) c parts c') :
    Accounts c c' (markersOf (parts.map Prod.snd)) ∧
      placeMarkers (parts.map Prod.snd) = true := by
  induction hrounds with
  | @done c _ => exact ⟨accounts_of_moves (Moves.refl c), rfl⟩
  | next _ hout _ _ ih =>
    obtain ⟨hfirst, hplaces⟩ := accounts_declaration h hout
    exact ⟨hfirst.trans ih.1, by simp [hplaces, ih.2]⟩

/-- The markers of declarations account for their errors, one for each declaration that was given
up. -/
theorem accounts_declarations {stop : Cursor → Bool} {nodes : List Node}
    (h : NestedMarked (nested levels)) (hend : EndsList stop)
    (hout : Walk.outcome (declarations stop (declaration (nested levels))) c = (nodes, c')) :
    Accounts c c' (markersOf nodes) ∧ placeMarkers nodes = true := by
  obtain ⟨parts, last, hrounds, hlist⟩ := exists_rounds (nestedFollows levels) hend c
  rw [hout, Prod.mk.injEq] at hlist
  obtain ⟨rfl, rfl⟩ := hlist
  exact hrounds.accounts h

/-- The markers of a block are those of its declarations. -/
theorem readsMarked_braced (h : NestedMarked (nested levels))
    (hout : outcome (braced (declaration (nested levels))) c = (.ok node, c')) :
    ReadsMarked c node c' := by
  cases hmark : c.isAt .openBrace with
  | false => simp [outcome_braced_of_not_isAt hmark] at hout
  | true =>
    obtain ⟨opening, rest, hahead, hfirst⟩ := exists_terminal_of_isAt hmark
    rcases hlist : Walk.outcome (declarations blockEnd (declaration (nested levels)))
      (c.behind [opening.val] rest) with ⟨nodes, m⟩
    rw [outcome_braced_of_ahead hahead opening.property, hlist] at hout
    obtain ⟨token, m', hclosing, hout⟩ := outcome_bind_eq_ok.mp hout
    obtain ⟨closing, -, hlast⟩ := exists_terminal_of_outcome_expect hclosing
    rw [outcome_pure, Prod.mk.injEq, Except.ok.injEq] at hout
    obtain ⟨rfl, rfl⟩ := hout
    obtain ⟨haccounts, hplaces⟩ := accounts_declarations h endsList_blockEnd hlist
    refine ⟨governable_block hplaces _, ?_⟩
    have hall := (haccounts.trans (accounts_of_moves hlast)).after_moves hfirst
    rwa [List.append_nil] at hall

end Rules

/-- The parsers of every level read nodes whose markers account for the errors. -/
theorem nestedMarked (levels : Nat) : NestedMarked (nested levels) := by
  induction levels with
  | zero => exact ⟨fun hout => by simp [nested] at hout, fun hout => by simp [nested] at hout⟩
  | succ levels ih => exact ⟨readsMarked_statement ih, readsMarked_braced ih⟩

end Grammar

namespace Program

open Cursor Grammar

/-- The markers of a program account for its errors. -/
theorem markers_ofTokens (file : Option String) (tokens : TokenList) :
    (Node.markersOf (ofTokens file tokens).statements).Sublist
        ((ofTokens file tokens).errors.map (SyntaxError.mark file)) ∧
      (Node.markersOf (ofTokens file tokens).statements).getLast? =
        ((ofTokens file tokens).errors.map (SyntaxError.mark file)).getLast? ∧
      Node.placeMarkers (ofTokens file tokens).statements = true := by
  obtain ⟨⟨passed, found, hmoves, hsublist, hlast⟩, hplaces⟩ := accounts_declarations
    (nestedMarked maxNesting) endsList_isAtEnd (Prod.mk.eta.symm :
      Walk.outcome program (Cursor.start file tokens) = _)
  have herrors : (ofTokens file tokens).errors = found := by
    rw [errors_ofTokens, hmoves.errors]
    rfl
  rw [herrors, statements_ofTokens]
  exact ⟨hsublist, hlast, hplaces⟩

/-- In a program that can be scanned, the markers in the order in which they stand in the tree say
what some of the errors say, in the order in which these were found. The last error has its marker,
and it is the last one, so there are errors exactly if there is a marker. Markers stand at the
outermost level and in blocks, never as a branch. -/
theorem markers_of_errors {file : Option String} {text : String} {program : Program}
    (h : Program.ofText file text = .ok program) :
    (Node.markersOf program.statements).Sublist (program.errors.map (SyntaxError.mark file)) ∧
    (∀ error, program.errors.getLast? = some error →
      (Node.markersOf program.statements).getLast? = some (error.mark file)) ∧
    (program.errors = [] ↔ Node.markersOf program.statements = []) ∧
    Node.placeMarkers program.statements = true := by
  cases htokens : TokenList.ofText text with
  | error stray => simp [Program.ofText, htokens, Except.map] at h
  | ok tokens =>
    rw [Program.ofText, htokens] at h
    obtain rfl := Except.ok.inj h
    obtain ⟨hsublist, hlast, hplaces⟩ := markers_ofTokens file tokens
    refine ⟨hsublist, fun error herror => ?_, ⟨fun hnone => ?_, fun hnone => ?_⟩, hplaces⟩
    · rw [hlast, List.getLast?_map, herror]
      rfl
    · rw [hnone] at hsublist
      exact List.sublist_nil.mp hsublist
    · rw [hnone, List.getLast?_nil, eq_comm, List.getLast?_eq_none_iff] at hlast
      exact List.map_eq_nil_iff.mp hlast

/-- The tokens of `{ print ; } { var`. -/
def givenUpBlock : List Token :=
  [⟨.openBrace, "\x7b", 1⟩, ⟨.printWord, "print", 1⟩, ⟨.semicolon, ";", 1⟩,
    ⟨.closeBrace, "\x7d", 1⟩, ⟨.openBrace, "\x7b", 1⟩, ⟨.varWord, "var", 1⟩]

/-- One marker stands in the first block. The second block is given up, and with it the marker that
stood there, so of three errors two are left in the tree. -/
theorem markers_of_errors_givenUp :
    ∃ program, Program.ofText none "\x7b print ; \x7d \x7b var" = .ok program ∧
      program.errors.length = 3 ∧ (Node.markersOf program.statements).length = 2 ∧
      (Node.markersOf program.statements).Sublist (program.errors.map (SyntaxError.mark none)) ∧
      (∀ error, program.errors.getLast? = some error →
        (Node.markersOf program.statements).getLast? = some (error.mark none)) ∧
      Node.placeMarkers program.statements = true := by
  have htokens : TokenList.ofText "\x7b print ; \x7d \x7b var" = .ok ⟨givenUpBlock, 1⟩ := by
    decide +kernel
  have hprogram : Program.ofText none "\x7b print ; \x7d \x7b var" =
      .ok (ofTokens none ⟨givenUpBlock, 1⟩) := by
    rw [Program.ofText, htokens]
    rfl
  obtain ⟨hsublist, hlast, -, hplaces⟩ := markers_of_errors hprogram
  exact ⟨_, hprogram, by decide, by decide, hsublist, hlast, hplaces⟩

end Program

end ScriptKit
