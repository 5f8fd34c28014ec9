import ScriptKit.Proofs.Progress

/-!
# Programs that differ in their lines and in their names only

Two runs of the grammar over tokens of the same kinds and texts go the same way, wherever the
tokens stand: the lines of the second run correspond to those of the first one, its cursor has
passed some more tokens, and it may have recorded errors earlier. What was passed does not matter,
because recovery looks back only at tokens that it has just passed itself.

`Alike` is this correspondence, for tokens, errors, nodes and cursors. It is stated for any
relation between lines and for any relation between the names of texts, which only the markers for
malformed statements tell of. The rules of the grammar keep it, errors and recovery included.
-/

set_option autoImplicit false

namespace ScriptKit

section Definitions

variable (lines : SourceLine → SourceLine → Prop)

/-- Tokens of one kind and text, on corresponding lines. -/
structure Token.Alike (token token' : Token) : Prop where
  kind_eq : token'.kind = token.kind
  text_eq : token'.text = token.text
  line : lines (some token.line) (some token'.line)

/-- The same complaint about corresponding places, the second one some tokens further on. -/
structure SyntaxError.Alike (offset : Nat) (error error' : SyntaxError) : Prop where
  complaint_eq : error'.complaint = error.complaint
  found : Option.Rel (Token.Alike lines) error.found error'.found
  line : lines (some error.line) (some error'.line)
  index_eq : error'.index = error.index + offset

/-- Reports on the same fault, on corresponding lines. -/
structure Report.Alike (report report' : Report) : Prop where
  fault_eq : report'.fault = report.fault
  line : lines report.line report'.line
  file_eq : report'.file = report.file

variable (files : Option String → Option String → Prop)

/-- Nodes of one form, on corresponding lines. Markers tell of texts with corresponding names. -/
inductive Node.Alike : Node → Node → Prop where
  | literal (value : Value) {line line' : SourceLine} (hline : lines line line') :
      Alike (.literal value line) (.literal value line')
  | reference (name : String) {line line' : SourceLine} (hline : lines line line') :
      Alike (.reference name line) (.reference name line')
  | binary (op : Operator) {lhs lhs' rhs rhs' : Node} {line line' : SourceLine}
      (hlhs : Alike lhs lhs') (hrhs : Alike rhs rhs') (hline : lines line line') :
      Alike (.binary op lhs rhs line) (.binary op lhs' rhs' line')
  | assign (name : String) {value value' : Node} {line line' : SourceLine}
      (hvalue : Alike value value') (hline : lines line line') :
      Alike (.assign name value line) (.assign name value' line')
  | evaluate {value value' : Node} {line line' : SourceLine} (hvalue : Alike value value')
      (hline : lines line line') : Alike (.evaluate value line) (.evaluate value' line')
  | declare (name : String) {line line' : SourceLine} (hline : lines line line') :
      Alike (.declare name line) (.declare name line')
  | define (name : String) {initial initial' : Node} {line line' : SourceLine}
      (hinitial : Alike initial initial') (hline : lines line line') :
      Alike (.define name initial line) (.define name initial' line')
  | print {value value' : Node} {line line' : SourceLine} (hvalue : Alike value value')
      (hline : lines line line') : Alike (.print value line) (.print value' line')
  | ifThen {condition condition' thenBranch thenBranch' : Node} {line line' : SourceLine}
      (hcondition : Alike condition condition') (hthen : Alike thenBranch thenBranch')
      (hline : lines line line') :
      Alike (.ifThen condition thenBranch line) (.ifThen condition' thenBranch' line')
  | ifElse {condition condition' thenBranch thenBranch' elseBranch elseBranch' : Node}
      {line line' : SourceLine} (hcondition : Alike condition condition')
      (hthen : Alike thenBranch thenBranch') (helse : Alike elseBranch elseBranch')
      (hline : lines line line') :
      Alike (.ifElse condition thenBranch elseBranch line)
        (.ifElse condition' thenBranch' elseBranch' line')
  | loop {condition condition' body body' : Node} {line line' : SourceLine}
      (hcondition : Alike condition condition') (hbody : Alike body body')
      (hline : lines line line') : Alike (.loop condition body line) (.loop condition' body' line')
  | block {statements statements' : List Node} {line line' : SourceLine}
      (hlength : statements.length = statements'.length)
      (hstatements : ∀ i (h : i < statements.length) (h' : i < statements'.length),
        Alike statements[i] statements'[i]) (hline : lines line line') :
      Alike (.block statements line) (.block statements' line')
  | skipped {file file' : Option String} {offset : Nat} {error error' : SyntaxError}
      (hfile : files file file') (herror : error.Alike lines offset error') :
      Alike (.skipped (error.report file).message (some error.line))
        (.skipped (error'.report file').message (some error'.line))

/-- Cursors in front of corresponding tokens, in texts with corresponding names. The second one has
passed some more tokens, and its recorded errors come after earlier ones. -/
structure Cursor.Alike (offset : Nat) (earlier : List SyntaxError) (c c' : Cursor) : Prop where
  file : files c.file c'.file
  position_eq : c'.position = c.position + offset
  ahead : List.Forall₂ (Token.Alike lines) c.ahead c'.ahead
  endLine : lines (some c.endLine) (some c'.endLine)
  errors : ∃ later, c'.errors.toList = earlier ++ later ∧
    List.Forall₂ (SyntaxError.Alike lines offset) c.errors.toList later

/-- Both actions succeed with related results, or both fail with corresponding errors, at
corresponding cursors. -/
inductive Parse.OutcomeAlike (offset : Nat) (earlier : List SyntaxError) {α β : Type}
    (rel : α → β → Prop) :
    Except SyntaxError α × Cursor → Except SyntaxError β × Cursor → Prop where
  | ok {a : α} {b : β} {c c' : Cursor} (hresult : rel a b)
      (hcursor : c.Alike lines files offset earlier c') :
      OutcomeAlike offset earlier rel (.ok a, c) (.ok b, c')
  | error {error error' : SyntaxError} {c c' : Cursor} (herror : error.Alike lines offset error')
      (hcursor : c.Alike lines files offset earlier c') :
      OutcomeAlike offset earlier rel (.error error, c) (.error error', c')

/-- The actions go the same way at corresponding cursors. -/
def Parse.Alike (offset : Nat) (earlier : List SyntaxError) {α β : Type} (rel : α → β → Prop)
    (action : Parse α) (action' : Parse β) : Prop :=
  ∀ c c' : Cursor, c.Alike lines files offset earlier c' →
    OutcomeAlike lines files offset earlier rel (outcome action c) (outcome action' c')

end Definitions

variable {lines : SourceLine → SourceLine → Prop} {files : Option String → Option String → Prop}
  {offset : Nat} {earlier : List SyntaxError}

namespace Cursor

variable {c c' : Cursor}

/-- Corresponding cursors are both at the end, or both in front of corresponding tokens behind
which they correspond again. -/
theorem Alike.ahead_cases (h : c.Alike lines files offset earlier c') :
    (c.ahead = [] ∧ c'.ahead = []) ∨
      ∃ token rest token' rest', c.ahead = token :: rest ∧ c'.ahead = token' :: rest' ∧
        token.Alike lines token' ∧
        (c.behind [token] rest).Alike lines files offset earlier (c'.behind [token'] rest') := by
  have hahead := h.ahead
  cases hc : c.ahead with
  | nil =>
    rw [hc, List.forall₂_nil_left_iff] at hahead
    exact .inl ⟨rfl, hahead⟩
  | cons token rest =>
    rw [hc, List.forall₂_cons_left_iff] at hahead
    obtain ⟨token', rest', htoken, hrest, hc'⟩ := hahead
    refine .inr ⟨token, rest, token', rest', rfl, hc', htoken, h.file, ?_, hrest, h.endLine,
      h.errors⟩
    have hposition := h.position_eq
    simp only [position, passed_behind, List.reverse_singleton, List.singleton_append,
      List.length_cons] at hposition ⊢
    omega

/-- Corresponding cursors are at the same kinds. -/
theorem Alike.isAt_eq (h : c.Alike lines files offset earlier c') (kind : Token.Kind) :
    c'.isAt kind = c.isAt kind := by
  obtain ⟨hc, hc'⟩ | ⟨token, rest, token', rest', hc, hc', htoken, -⟩ := h.ahead_cases
  · rw [isAt_of_ahead_nil kind hc, isAt_of_ahead_nil kind hc']
  · rw [isAt_of_ahead kind hc, isAt_of_ahead kind hc', htoken.kind_eq]

/-- At a kind there are corresponding tokens of that kind to be passed. -/
theorem Alike.exists_of_isAt (h : c.Alike lines files offset earlier c') {kind : Token.Kind}
    (hat : c.isAt kind = true) :
    ∃ token rest token' rest', c.ahead = token :: rest ∧ token.kind = kind ∧
      c'.ahead = token' :: rest' ∧ token'.kind = kind ∧ token.Alike lines token' ∧
      (c.behind [token] rest).Alike lines files offset earlier (c'.behind [token'] rest') := by
  obtain ⟨hc, -⟩ | ⟨token, rest, token', rest', hc, hc', htoken, hpass⟩ := h.ahead_cases
  · simp [isAt_of_ahead_nil kind hc] at hat
  · rw [isAt_of_ahead kind hc, decide_eq_true_eq] at hat
    exact ⟨token, rest, token', rest', hc, hat, hc', htoken.kind_eq.trans hat, htoken, hpass⟩

/-- Corresponding cursors are on corresponding lines. -/
theorem Alike.line (h : c.Alike lines files offset earlier c') :
    lines (some c.line) (some c'.line) := by
  obtain ⟨hc, hc'⟩ | ⟨token, rest, token', rest', hc, hc', htoken, -⟩ := h.ahead_cases
  · rw [Cursor.line, Cursor.line, current?_of_ahead_nil hc, current?_of_ahead_nil hc']
    exact h.endLine
  · rw [line_of_ahead hc, line_of_ahead hc']
    exact htoken.line

/-- Errors at corresponding cursors correspond. -/
theorem Alike.errorHere (h : c.Alike lines files offset earlier c') (complaint : Complaint) :
    (c.errorHere complaint).Alike lines offset (c'.errorHere complaint) := by
  refine ⟨rfl, ?_, h.line, h.position_eq⟩
  show Option.Rel _ c.current? c'.current?
  obtain ⟨hc, hc'⟩ | ⟨token, rest, token', rest', hc, hc', htoken, -⟩ := h.ahead_cases
  · rw [current?_of_ahead_nil hc, current?_of_ahead_nil hc']
    exact .none
  · rw [current?_of_ahead hc, current?_of_ahead hc']
    exact .some htoken

/-- The way to the next statement depends on the kinds of the tokens only. -/
theorem forall₂_passStatement (passed passed' : List Token) {ahead ahead' : List Token}
    (hlast : passed'.head?.map Token.kind = passed.head?.map Token.kind)
    (hlength : passed'.length = passed.length + offset)
    (hahead : List.Forall₂ (Token.Alike lines) ahead ahead') :
    (passStatement passed' ahead').1.length = (passStatement passed ahead).1.length + offset ∧
      List.Forall₂ (Token.Alike lines) (passStatement passed ahead).2
        (passStatement passed' ahead').2 := by
  induction hahead generalizing passed passed' with
  | nil => exact ⟨hlength, .nil⟩
  | @cons token token' rest rest' htoken hrest ih =>
    have hsemicolon : passed'.head?.any (·.kind = .semicolon) =
        passed.head?.any (·.kind = .semicolon) := by
      cases passed <;> cases passed' <;> simp_all
    rw [passStatement, passStatement, hsemicolon, htoken.kind_eq]
    split_ifs
    · exact ⟨hlength, .cons htoken hrest⟩
    · refine ih _ _ ?_ ?_
      · simp [htoken.kind_eq]
      · simp only [List.length_cons]
        omega

/-- Recovery from corresponding errors leads to corresponding cursors. -/
theorem Alike.recover (h : c.Alike lines files offset earlier c') {error error' : SyntaxError}
    (herror : error.Alike lines offset error') :
    (c.recover error).Alike lines files offset earlier (c'.recover error') := by
  obtain ⟨later, hlater, hpairs⟩ := h.errors
  have herrors : (c'.errors.push error').toList = earlier ++ (later ++ [error']) ∧
      List.Forall₂ (SyntaxError.Alike lines offset) (c.errors.push error).toList
        (later ++ [error']) := by
    rw [Array.toList_push, Array.toList_push, hlater, List.append_assoc]
    exact ⟨rfl, List.rel_append hpairs (.cons herror .nil)⟩
  have hposition := h.position_eq
  obtain ⟨hc, hc'⟩ | ⟨token, rest, token', rest', hc, hc', htoken, hpass⟩ := h.ahead_cases
  · simp only [Cursor.recover, resume, advance, hc, hc', passStatement]
    exact ⟨h.file, hposition, by simp, h.endLine, _, herrors⟩
  · have hway := forall₂_passStatement (token :: c.passed) (token' :: c'.passed)
      (by simp [htoken.kind_eq]) hpass.position_eq hpass.ahead
    simp only [ahead_behind] at hway
    simp only [Cursor.recover, resume, advance, hc, hc']
    exact ⟨h.file, hway.1, hway.2, h.endLine, _, herrors⟩

end Cursor

/-- Corresponding errors say the same about corresponding lines. -/
theorem SyntaxError.Alike.report {error error' : SyntaxError} (h : error.Alike lines offset error')
    (file : Option String) : (error.report file).Alike lines (error'.report file) := by
  have hfault : error'.text = error.text ∧ error'.atEnd = error.atEnd := by
    have hrel := h.found
    rw [SyntaxError.text, SyntaxError.text, SyntaxError.atEnd, SyntaxError.atEnd, h.complaint_eq]
    revert hrel
    generalize error.found = found
    generalize error'.found = found'
    rintro (htoken | -)
    · simp [htoken.text_eq]
    · simp
  refine ⟨?_, h.line, rfl⟩
  rw [SyntaxError.report, SyntaxError.report, hfault.1, hfault.2]

section SameLines

/-- On the same line corresponding tokens are equal. -/
theorem Token.Alike.eq {token token' : Token} (h : token.Alike Eq token') : token' = token := by
  have hline := h.line
  rw [Option.some.injEq, Nat.cast_inj] at hline
  obtain ⟨kind, text, line⟩ := token'
  obtain ⟨rfl, rfl, -⟩ := h
  obtain rfl : token.line = line := hline
  rfl

/-- The error in a text in front of which some tokens were put. -/
def SyntaxError.moved (offset : Nat) (error : SyntaxError) : SyntaxError :=
  { error with index := error.index + offset }

/-- On the same line corresponding errors differ in their index only. -/
theorem SyntaxError.Alike.eq_moved {error error' : SyntaxError} (h : error.Alike Eq offset error') :
    error' = error.moved offset := by
  have hline := h.line
  rw [Option.some.injEq, Nat.cast_inj] at hline
  have hfound : error'.found = error.found := by
    obtain ⟨-, hfound, -, -⟩ := h
    revert hfound
    generalize error.found = found
    generalize error'.found = found'
    rintro (htoken | -)
    · rw [htoken.eq]
    · rfl
  obtain ⟨complaint, found, line, index⟩ := error'
  obtain ⟨rfl, -, -, rfl⟩ := h
  obtain rfl : found = error.found := hfound
  obtain rfl : error.line = line := hline
  rfl

/-- On the same lines corresponding nodes are equal. -/
theorem Node.Alike.eq {node node' : Node} (h : node.Alike Eq Eq node') : node' = node := by
  induction h with
  | literal _ hline | reference _ hline | declare _ hline => rw [hline]
  | binary _ _ _ hline ihlhs ihrhs => rw [ihlhs, ihrhs, hline]
  | assign _ _ hline ih | define _ _ hline ih | evaluate _ hline ih | print _ hline ih =>
    rw [ih, hline]
  | ifThen _ _ hline ihcondition ihthen => rw [ihcondition, ihthen, hline]
  | ifElse _ _ _ hline ihcondition ihthen ihelse => rw [ihcondition, ihthen, ihelse, hline]
  | loop _ _ hline ihcondition ihbody => rw [ihcondition, ihbody, hline]
  | block hlength _ hline ih =>
    rw [hline, List.ext_getElem hlength.symm fun i h' h => ih i h h']
  | skipped hfile herror => rw [herror.eq_moved, hfile]; rfl

/-- On the same lines corresponding lists of nodes are equal. -/
theorem eq_of_forall₂_alike {nodes nodes' : List Node}
    (h : List.Forall₂ (Node.Alike Eq Eq) nodes nodes') : nodes' = nodes := by
  induction h with
  | nil => rfl
  | cons hnode _ ih => rw [hnode.eq, ih]

/-- On the same lines corresponding lists of errors differ in the indices only. -/
theorem eq_map_moved_of_forall₂ {errors errors' : List SyntaxError}
    (h : List.Forall₂ (SyntaxError.Alike Eq offset) errors errors') :
    errors' = errors.map (SyntaxError.moved offset) := by
  induction h with
  | nil => rfl
  | cons herror _ ih => rw [List.map_cons, herror.eq_moved, ih]

end SameLines

namespace Parse

variable {α β γ δ : Type} {rel : α → β → Prop} {rel' : γ → δ → Prop}

/-- Returning related values is alike. -/
theorem alike_pure {a : α} {b : β} (h : rel a b) :
    Alike lines files offset earlier rel (pure a : Parse α) (pure b) :=
  fun _ _ hcursor => .ok h hcursor

/-- Raising the same complaint is alike. -/
theorem alike_fail (complaint : Complaint) :
    Alike lines files offset earlier rel (fail complaint : Parse α) (fail complaint) :=
  fun _ _ hcursor => .error (hcursor.errorHere complaint) hcursor

/-- Where two actions have come out alike, what goes on alike comes out alike. -/
theorem OutcomeAlike.bind {action : Parse α} {action' : Parse β} {next : α → Parse γ}
    {next' : β → Parse δ} {c c' : Cursor}
    (h : OutcomeAlike lines files offset earlier rel (outcome action c) (outcome action' c'))
    (hnext : ∀ a b, rel a b → Alike lines files offset earlier rel' (next a) (next' b)) :
    OutcomeAlike lines files offset earlier rel' (outcome (action >>= next) c)
      (outcome (action' >>= next') c') := by
  rw [outcome_bind, outcome_bind]
  revert h
  generalize outcome action c = result
  generalize outcome action' c' = result'
  rintro (⟨hresult, hcursor⟩ | ⟨herror, hcursor⟩)
  · exact hnext _ _ hresult _ _ hcursor
  · exact .error herror hcursor

/-- Actions in a row go the same way if each of them does. -/
theorem Alike.bind {action : Parse α} {action' : Parse β} {next : α → Parse γ}
    {next' : β → Parse δ} (h : Alike lines files offset earlier rel action action')
    (hnext : ∀ a b, rel a b → Alike lines files offset earlier rel' (next a) (next' b)) :
    Alike lines files offset earlier rel' (action >>= next) (action' >>= next') :=
  fun _ _ hcursor => (h _ _ hcursor).bind hnext

/-- An expected token corresponds, and so does the complaint if it is missing. -/
theorem alike_expect (kind : Token.Kind) (complaint : Complaint) :
    Alike lines files offset earlier (Token.Alike lines) (expect kind complaint)
      (expect kind complaint) := by
  intro c c' h
  cases hat : c.isAt kind with
  | false =>
    rw [outcome_expect_of_not_isAt complaint hat,
      outcome_expect_of_not_isAt complaint ((h.isAt_eq kind).trans hat)]
    exact .error (h.errorHere complaint) h
  | true =>
    obtain ⟨token, rest, token', rest', hc, rfl, hc', hkind, htoken, hpass⟩ := h.exists_of_isAt hat
    have hmet := outcome_expect_of_ahead complaint hc'
    rw [hkind] at hmet
    rw [outcome_expect_of_ahead complaint hc, hmet]
    exact .ok htoken hpass

/-- Actions that look at the next token are alike if they do the same in front of a token of the
kind and the same in front of others. -/
theorem alike_if_isAt {kind : Token.Kind} {first first' second second' : Parse Node}
    (hfirst : Alike lines files offset earlier (Node.Alike lines files) first first')
    (hsecond : Alike lines files offset earlier (Node.Alike lines files) second second') :
    Alike lines files offset earlier (Node.Alike lines files)
      (do if (← get).isAt kind then first else second)
      (do if (← get).isAt kind then first' else second') := by
  intro c c' h
  rw [outcome_get_bind, outcome_get_bind, h.isAt_eq kind]
  split_ifs
  · exact hfirst c c' h
  · exact hsecond c c' h

/-- After passing one token each, the cursors correspond again. -/
theorem alike_advance_bind {next next' : Unit → Parse Node}
    (h : Alike lines files offset earlier (Node.Alike lines files) (next ()) (next' ())) :
    Alike lines files offset earlier (Node.Alike lines files) (advance >>= next)
      (advance >>= next') := by
  intro c c' hcursor
  rw [outcome_advance_bind, outcome_advance_bind]
  obtain ⟨hc, hc'⟩ | ⟨token, rest, token', rest', hc, hc', -, hpass⟩ := hcursor.ahead_cases
  · rw [Cursor.advance_of_ahead_nil hc, Cursor.advance_of_ahead_nil hc']
    exact h c c' hcursor
  · rw [Cursor.advance_of_ahead hc, Cursor.advance_of_ahead hc']
    exact h _ _ hpass

end Parse

namespace Grammar

open Parse

/-- The rule goes the same way at corresponding cursors. -/
abbrev AlikeRule (lines : SourceLine → SourceLine → Prop)
    (files : Option String → Option String → Prop) (offset : Nat) (earlier : List SyntaxError)
    (rule : Parse Node) : Prop :=
  Parse.Alike lines files offset earlier (Node.Alike lines files) rule rule

/-- The parsers one level further in go the same way at corresponding cursors. -/
structure NestedAlike (lines : SourceLine → SourceLine → Prop)
    (files : Option String → Option String → Prop) (offset : Nat) (earlier : List SyntaxError)
    (inner : Nested) : Prop where
  group : AlikeRule lines files offset earlier inner.group
  body : AlikeRule lines files offset earlier inner.body
  block : AlikeRule lines files offset earlier inner.block

section Expressions

variable {inner : Nested}

/-- Primaries go the same way. -/
theorem alike_primary (h : AlikeRule lines files offset earlier inner.group) :
    AlikeRule lines files offset earlier (primary inner) := by
  intro c c' hcursor
  cases hnumber : c.isAt .number with
  | true =>
    obtain ⟨token, rest, token', rest', hc, hkind, hc', hkind', htoken, hpass⟩ :=
      hcursor.exists_of_isAt hnumber
    rw [outcome_primary_of_number hc hkind, outcome_primary_of_number hc' hkind', htoken.text_eq]
    exact .ok (.literal _ htoken.line) hpass
  | false =>
    cases hname : c.isAt .name with
    | true =>
      obtain ⟨token, rest, token', rest', hc, hkind, hc', hkind', htoken, hpass⟩ :=
        hcursor.exists_of_isAt hname
      rw [outcome_primary_of_name hc hkind, outcome_primary_of_name hc' hkind', htoken.text_eq]
      exact .ok (.reference _ htoken.line) hpass
    | false =>
      cases hparen : c.isAt .openParen with
      | true =>
        obtain ⟨token, rest, token', rest', hc, hkind, hc', hkind', htoken, hpass⟩ :=
          hcursor.exists_of_isAt hparen
        rw [outcome_primary_of_openParen hc hkind, outcome_primary_of_openParen hc' hkind']
        refine (h _ _ hpass).bind fun _ _ hnode => ?_
        exact (alike_expect _ _).bind fun _ _ _ => alike_pure hnode
      | false =>
        rw [outcome_primary_of_other hnumber hname hparen,
          outcome_primary_of_other ((hcursor.isAt_eq _).trans hnumber)
            ((hcursor.isAt_eq _).trans hname) ((hcursor.isAt_eq _).trans hparen)]
        exact .error (hcursor.errorHere _) hcursor

/-- A row of operators, by the rounds counted in both runs. -/
theorem alike_chainFrom {operator? : Token.Kind → Option Operator} {operand : Parse Node}
    (h : AlikeRule lines files offset earlier operand) {rounds rounds' : List Token}
    {left left' : Node} (hrounds : rounds.length = rounds'.length)
    (hleft : left.Alike lines files left') :
    Parse.Alike lines files offset earlier (Node.Alike lines files)
      (chainFrom operator? operand rounds left) (chainFrom operator? operand rounds' left') := by
  induction rounds generalizing rounds' left left' with
  | nil =>
    obtain rfl := List.eq_nil_of_length_eq_zero hrounds.symm
    exact alike_pure hleft
  | cons round rounds ih =>
    obtain ⟨round', rounds', rfl⟩ :=
      List.exists_of_length_succ rounds' (hrounds.symm.trans List.length_cons)
    intro c c' hcursor
    have hsame : c'.ahead.head?.bind (operator? ·.kind) =
        c.ahead.head?.bind (operator? ·.kind) := by
      obtain ⟨hc, hc'⟩ | ⟨token, rest, token', rest', hc, hc', htoken, -⟩ := hcursor.ahead_cases
      · rw [hc, hc']
      · simp [hc, hc', htoken.kind_eq]
    cases hsign : c.ahead.head?.bind (operator? ·.kind) with
    | none =>
      rw [outcome_chainFrom_of_none _ left hsign,
        outcome_chainFrom_of_none _ left' (hsame.trans hsign)]
      exact .ok hleft hcursor
    | some op =>
      obtain ⟨hc, -⟩ | ⟨token, rest, token', rest', hc, hc', htoken, hpass⟩ := hcursor.ahead_cases
      · simp [hc] at hsign
      · have hop : operator? token.kind = some op := by simpa [hc] using hsign
        rw [outcome_chainFrom_of_some round rounds left hc hop,
          outcome_chainFrom_of_some round' rounds' left' hc' (by rwa [htoken.kind_eq])]
        exact (h _ _ hpass).bind fun _ _ hright =>
          ih (Nat.succ.inj hrounds) (.binary op hleft hright htoken.line)

/-- Operands of every row go the same way. -/
theorem alike_operandAt (h : AlikeRule lines files offset earlier inner.group) (row : Nat) :
    AlikeRule lines files offset earlier (operandAt inner row) := by
  induction row with
  | zero => exact alike_primary h
  | succ row ih =>
    refine Parse.Alike.bind ih fun _ _ hfirst c c' hcursor => ?_
    rw [outcome_get_bind, outcome_get_bind]
    exact alike_chainFrom ih hcursor.ahead.length_eq hfirst c c' hcursor

/-- Corresponding targets are both variables, or neither of them is one. -/
theorem rel_assignment? {target target' value value' : Node}
    (htarget : target.Alike lines files target') (hvalue : value.Alike lines files value') :
    Option.Rel (Node.Alike lines files) (assignment? target value)
      (assignment? target' value') := by
  cases htarget with
  | reference name hline => exact .some (.assign name hvalue hline)
  | _ => exact .none

/-- What follows corresponding targets goes the same way. -/
theorem alike_assignRest (h : AlikeRule lines files offset earlier inner.group)
    {target target' : Node} (htarget : target.Alike lines files target') :
    Parse.Alike lines files offset earlier (Node.Alike lines files) (assignRest inner target)
      (assignRest inner target') := by
  intro m m' hm
  cases hmark : m.isAt .assign with
  | false =>
    rw [outcome_assignRest_of_not_assign target hmark,
      outcome_assignRest_of_not_assign target' ((hm.isAt_eq _).trans hmark)]
    exact .ok htarget hm
  | true =>
    obtain ⟨mark, rest, mark', rest', hahead, hkind, hahead', hkind', -, hpass⟩ :=
      hm.exists_of_isAt hmark
    rw [outcome_assignRest_of_assign target hahead hkind,
      outcome_assignRest_of_assign target' hahead' hkind']
    have hgroup := h _ _ hpass
    revert hgroup
    generalize outcome inner.group (m.behind [mark] rest) = result
    generalize outcome inner.group (m'.behind [mark'] rest') = result'
    rintro (⟨hvalue, hend⟩ | ⟨herror, hend⟩)
    · dsimp only
      have hassign := rel_assignment? htarget hvalue
      revert hassign
      generalize assignment? target _ = node
      generalize assignment? target' _ = node'
      rintro (hnode | -)
      · exact .ok hnode hend
      · exact .error (hm.errorHere _) hend
    · exact .error herror hend

/-- Expressions go the same way. -/
theorem alike_expression (h : AlikeRule lines files offset earlier inner.group) :
    AlikeRule lines files offset earlier (expression inner) :=
  (alike_operandAt h 4).bind fun _ _ htarget => alike_assignRest h htarget

end Expressions

section Statements

variable {inner : Nested}

/-- Statements that evaluate go the same way. -/
theorem alike_expressionStatement (h : NestedAlike lines files offset earlier inner) :
    AlikeRule lines files offset earlier (expressionStatement inner) := by
  intro c c' hcursor
  rw [expressionStatement, outcome_get_bind, outcome_get_bind]
  refine (alike_expression h.group c c' hcursor).bind fun _ _ hvalue => ?_
  exact (alike_expect _ _).bind fun _ _ _ => alike_pure (.evaluate hvalue hcursor.line)

/-- Statements that print go the same way. -/
theorem alike_printStatement (h : NestedAlike lines files offset earlier inner) :
    AlikeRule lines files offset earlier (printStatement inner) := by
  refine (alike_expect _ _).bind fun _ _ hword => ?_
  refine (alike_expression h.group).bind fun _ _ hvalue => ?_
  exact (alike_expect _ _).bind fun _ _ _ => alike_pure (.print hvalue hword.line)

/-- Conditionals go the same way. -/
theorem alike_ifStatement (h : NestedAlike lines files offset earlier inner) :
    AlikeRule lines files offset earlier (ifStatement inner) := by
  refine (alike_expect _ _).bind fun _ _ hword => ?_
  refine (alike_expect _ _).bind fun _ _ _ => ?_
  refine (alike_expression h.group).bind fun _ _ hcondition => ?_
  refine (alike_expect _ _).bind fun _ _ _ => ?_
  refine h.body.bind fun _ _ hthen => alike_if_isAt (alike_advance_bind ?_) ?_
  · exact h.body.bind fun _ _ helse => alike_pure (.ifElse hcondition hthen helse hword.line)
  · exact alike_pure (.ifThen hcondition hthen hword.line)

/-- Loops go the same way. -/
theorem alike_whileStatement (h : NestedAlike lines files offset earlier inner) :
    AlikeRule lines files offset earlier (whileStatement inner) := by
  refine (alike_expect _ _).bind fun _ _ hword => ?_
  refine (alike_expect _ _).bind fun _ _ _ => ?_
  refine (alike_expression h.group).bind fun _ _ hcondition => ?_
  refine (alike_expect _ _).bind fun _ _ _ => ?_
  exact h.body.bind fun _ _ hbody => alike_pure (.loop hcondition hbody hword.line)

/-- Statements go the same way, since the first tokens are of one kind. -/
theorem alike_statement (h : NestedAlike lines files offset earlier inner) :
    AlikeRule lines files offset earlier (statement inner) := by
  intro c c' hcursor
  rw [outcome_statement, outcome_statement]
  simp only [hcursor.isAt_eq]
  split_ifs
  · exact alike_printStatement h c c' hcursor
  · exact alike_ifStatement h c c' hcursor
  · exact alike_whileStatement h c c' hcursor
  · exact h.block c c' hcursor
  · exact alike_expressionStatement h c c' hcursor

/-- Declarations of variables go the same way. -/
theorem alike_varDeclaration (h : NestedAlike lines files offset earlier inner) :
    AlikeRule lines files offset earlier (varDeclaration inner) := by
  refine (alike_expect _ _).bind fun _ _ hword => ?_
  refine (alike_expect _ _).bind fun name name' hname => ?_
  refine alike_if_isAt (alike_advance_bind ?_) ?_
  · refine (alike_expression h.group).bind fun _ _ hinitial => ?_
    refine (alike_expect _ _).bind fun _ _ _ => alike_pure ?_
    rw [hname.text_eq]
    exact .define _ hinitial hword.line
  · refine (alike_expect _ _).bind fun _ _ _ => alike_pure ?_
    rw [hname.text_eq]
    exact .declare _ hword.line

/-- Attempts at a declaration go the same way. -/
theorem alike_attempt (h : NestedAlike lines files offset earlier inner) :
    AlikeRule lines files offset earlier (attempt inner) :=
  alike_if_isAt (alike_varDeclaration h) (alike_statement h)

end Statements

section Declarations

variable {inner : Nested} {c c' : Cursor}

/-- Declarations at corresponding cursors correspond; so do the markers that stand for malformed
ones. -/
theorem alike_declaration (h : NestedAlike lines files offset earlier inner)
    (hcursor : c.Alike lines files offset earlier c') :
    (Walk.outcome (declaration inner) c).1.Alike lines files
        (Walk.outcome (declaration inner) c').1 ∧
      (Walk.outcome (declaration inner) c).2.Alike lines files offset earlier
        (Walk.outcome (declaration inner) c').2 := by
  have hattempt := alike_attempt h c c' hcursor
  generalize hout : outcome (attempt inner) c = result at hattempt
  generalize hout' : outcome (attempt inner) c' = result' at hattempt
  obtain ⟨hnode, hend⟩ | @⟨error, error', m, m', herror, hend⟩ := hattempt
  · rw [outcome_declaration_of_ok hout, outcome_declaration_of_ok hout']
    exact ⟨hnode, hend⟩
  · rw [outcome_declaration_of_error hout, outcome_declaration_of_error hout']
    refine ⟨?_, hend.recover herror⟩
    exact .skipped hend.file herror

/-- Lists of declarations, by the rounds counted in both runs. -/
theorem alike_declarationsFrom (h : NestedAlike lines files offset earlier inner)
    {stop : Cursor → Bool}
    (hstop : ∀ {c c' : Cursor}, c.Alike lines files offset earlier c' → stop c' = stop c)
    {rounds rounds' : List Token} {done done' : List Node}
    (hrounds : rounds.length = rounds'.length)
    (hdone : List.Forall₂ (Node.Alike lines files) done done')
    (hcursor : c.Alike lines files offset earlier c') :
    List.Forall₂ (Node.Alike lines files)
        (Walk.outcome (declarationsFrom stop (declaration inner) rounds done) c).1
        (Walk.outcome (declarationsFrom stop (declaration inner) rounds' done') c').1 ∧
      (Walk.outcome (declarationsFrom stop (declaration inner) rounds done) c).2.Alike lines files
        offset earlier
        (Walk.outcome (declarationsFrom stop (declaration inner) rounds' done') c').2 := by
  induction rounds generalizing rounds' done done' c c' with
  | nil =>
    obtain rfl := List.eq_nil_of_length_eq_zero hrounds.symm
    exact ⟨List.rel_reverse hdone, hcursor⟩
  | cons round rounds ih =>
    obtain ⟨round', rounds', rfl⟩ :=
      List.exists_of_length_succ rounds' (hrounds.symm.trans List.length_cons)
    rw [outcome_declarationsFrom_cons, outcome_declarationsFrom_cons, hstop hcursor]
    split_ifs
    · exact ⟨List.rel_reverse hdone, hcursor⟩
    · obtain ⟨hnode, hnext⟩ := alike_declaration h hcursor
      exact ih (Nat.succ.inj hrounds) (.cons hnode hdone) hnext

/-- Lists of declarations go the same way, if the condition that ends them does not tell the cursors
apart. -/
theorem alike_declarations (h : NestedAlike lines files offset earlier inner) {stop : Cursor → Bool}
    (hstop : ∀ {c c' : Cursor}, c.Alike lines files offset earlier c' → stop c' = stop c)
    (hcursor : c.Alike lines files offset earlier c') :
    List.Forall₂ (Node.Alike lines files)
        (Walk.outcome (declarations stop (declaration inner)) c).1
        (Walk.outcome (declarations stop (declaration inner)) c').1 ∧
      (Walk.outcome (declarations stop (declaration inner)) c).2.Alike lines files offset earlier
        (Walk.outcome (declarations stop (declaration inner)) c').2 :=
  alike_declarationsFrom h hstop hcursor.ahead.length_eq .nil hcursor

/-- Corresponding cursors are both at the end of the text, or neither of them is. -/
theorem isAtEnd_eq_of_alike (h : c.Alike lines files offset earlier c') :
    c'.isAtEnd = c.isAtEnd := by
  obtain ⟨hc, hc'⟩ | ⟨token, rest, token', rest', hc, hc', -⟩ := h.ahead_cases <;>
    simp [Cursor.isAtEnd, hc, hc']

/-- Blocks of corresponding statements correspond. -/
theorem alike_block {nodes nodes' : List Node} {line line' : SourceLine}
    (h : List.Forall₂ (Node.Alike lines files) nodes nodes') (hline : lines line line') :
    (Node.block nodes line).Alike lines files (.block nodes' line') := by
  rw [List.forall₂_iff_get] at h
  exact .block h.1 h.2 hline

/-- Blocks go the same way. -/
theorem alike_braced (h : NestedAlike lines files offset earlier inner) :
    AlikeRule lines files offset earlier (braced (declaration inner)) := by
  intro c c' hcursor
  cases hmark : c.isAt .openBrace with
  | false =>
    rw [outcome_braced_of_not_isAt hmark,
      outcome_braced_of_not_isAt ((hcursor.isAt_eq _).trans hmark)]
    exact .error (hcursor.errorHere _) hcursor
  | true =>
    obtain ⟨mark, rest, mark', rest', hahead, hkind, hahead', hkind', htoken, hpass⟩ :=
      hcursor.exists_of_isAt hmark
    have hstop {c c' : Cursor} (h : c.Alike lines files offset earlier c') :
        blockEnd c' = blockEnd c := by
      rw [blockEnd, blockEnd, isAtEnd_eq_of_alike h, h.isAt_eq]
    obtain ⟨hnodes, hend⟩ := alike_declarations h hstop hpass
    rw [outcome_braced_of_ahead hahead hkind, outcome_braced_of_ahead hahead' hkind']
    refine (alike_expect _ _ _ _ hend).bind fun _ _ _ => alike_pure ?_
    exact alike_block hnodes htoken.line

end Declarations

/-- The parsers of every level go the same way, by induction on the levels that are left. -/
theorem nestedAlike (levels : Nat) : NestedAlike lines files offset earlier (nested levels) := by
  induction levels with
  | zero => exact ⟨alike_fail _, alike_fail _, alike_fail _⟩
  | succ levels ih =>
    exact ⟨alike_expression ih.group, alike_statement ih, alike_braced ih⟩

/-- Programs over corresponding tokens correspond. -/
theorem alike_program {c c' : Cursor} (h : c.Alike lines files offset earlier c') :
    List.Forall₂ (Node.Alike lines files) (Walk.outcome program c).1 (Walk.outcome program c').1 ∧
      (Walk.outcome program c).2.Alike lines files offset earlier (Walk.outcome program c').2 :=
  alike_declarations (nestedAlike maxNesting) isAtEnd_eq_of_alike h

end Grammar

end ScriptKit
