import ScriptKit.Proofs.Scanning
import ScriptKit.Proofs.Segments
import ScriptKit.Proofs.Truncation

/-!
# The order of the errors

Errors are recorded in the order of the tokens that they are about. An error may be about a token
that was passed some time ago, the mark of an assignment to something that is no variable, and the
errors in a block are recorded before that of the statement around it. Nevertheless the cursor is
behind the token of every error by the time that the next one is raised, because recovery drops at
least one token; only at the end of the text there is nothing to be dropped. `Orderly` is this
invariant. A step keeps it, and so does a whole walk.

At the end of the text several errors can be about the same place, one for each declaration that is
still open there. How many these are is bounded by the levels left: `Finishes` counts them, rule by
rule.
-/

set_option autoImplicit false

namespace ScriptKit

open Relation (ReflTransGen)

/-- Does the complaint say what has to stand at its place, in words of the grammar? -/
@[simp] def Complaint.isOrdinary : Complaint → Bool
  | .invalidTarget | .described _ => false
  | _ => true

namespace SyntaxError

/-- The error names the token at its index and the line of that token. -/
structure Located (tokens : TokenList) (error : SyntaxError) : Prop where
  found_eq : tokens.withEnd[error.index]? = some error.found
  line_eq : tokens.lines[error.index]? = some error.line

/-- What is wrong with a target is said of the assignment mark. -/
def BlamesMark (error : SyntaxError) : Prop :=
  error.complaint = .invalidTarget → ∃ mark, error.found = some mark ∧ mark.kind = .assign

/-- The error is one that the rules of the grammar raise, in their own words. -/
structure Raised (error : SyntaxError) : Prop where
  ne_described : ∀ text, error.complaint ≠ .described text
  blamesMark : error.BlamesMark

variable {tokens : TokenList} {error : SyntaxError}

/-- An error is about a token or about the end behind the last one. -/
theorem Located.index_le (h : error.Located tokens) : error.index ≤ tokens.tokens.length := by
  have hlt := (List.getElem?_eq_some_iff.mp h.found_eq).1
  simp only [TokenList.withEnd, List.length_append, List.length_map, List.length_singleton] at hlt
  omega

/-- The errors about the end are those whose index is behind all tokens. -/
theorem Located.atEnd_iff (h : error.Located tokens) :
    error.atEnd = true ↔ error.index = tokens.tokens.length := by
  have hfound := h.found_eq
  unfold TokenList.withEnd at hfound
  constructor
  · intro hend
    by_contra hne
    have hlt : error.index < tokens.tokens.length := by
      have hle := h.index_le
      omega
    rw [List.getElem?_append_left (by simpa using hlt), List.getElem?_map,
      List.getElem?_eq_getElem hlt] at hfound
    simp only [Option.map_some, Option.some.injEq] at hfound
    simp [atEnd, ← hfound] at hend
  · intro hindex
    rw [List.getElem?_append_right (by simp [hindex])] at hfound
    simp only [hindex, List.length_map, Nat.sub_self, List.getElem?_cons_zero,
      Option.some.injEq] at hfound
    simp [atEnd, ← hfound]

end SyntaxError

namespace Cursor

variable {tokens : TokenList} {c m c' : Cursor}

/-- The cursor is at some place among the tokens. -/
structure Among (tokens : TokenList) (c : Cursor) : Prop where
  tokens_eq : tokens.tokens = c.passed.reverse ++ c.ahead
  endLine_eq : c.endLine = tokens.endLine

/-- At the start the cursor is in front of all tokens. -/
theorem among_start (file : Option String) (tokens : TokenList) :
    (start file tokens).Among tokens :=
  ⟨rfl, rfl⟩

/-- A cursor that moves stays among the tokens. -/
theorem Among.moves {passed : List Token} {found : List SyntaxError} (h : c.Among tokens)
    (hmoves : c.Moves passed found c') : c'.Among tokens := by
  constructor
  · rw [h.tokens_eq, hmoves.ahead, hmoves.passed]
    simp
  · rw [hmoves.endLine, h.endLine_eq]

/-- A complaint about the next token names it and its line. -/
theorem Among.located (h : c.Among tokens) (complaint : Complaint) :
    (c.errorHere complaint).Located tokens := by
  have hposition : (c.errorHere complaint).index = c.passed.reverse.length := by
    simp [errorHere, position]
  constructor
  · rw [hposition, TokenList.withEnd, h.tokens_eq]
    cases hahead : c.ahead with
    | nil => simp [errorHere, current?_of_ahead_nil hahead]
    | cons token rest => simp [errorHere, current?_of_ahead hahead]
  · rw [hposition, TokenList.lines, h.tokens_eq, ← h.endLine_eq]
    cases hahead : c.ahead with
    | nil => simp [errorHere, line, current?_of_ahead_nil hahead]
    | cons token rest => simp [errorHere, line_of_ahead hahead]

/-- A complaint in front of a token is not about the end. -/
theorem atEnd_errorHere_eq_false (h : c.ahead ≠ []) (complaint : Complaint) :
    (c.errorHere complaint).atEnd = false := by
  obtain ⟨token, rest, hahead⟩ := List.exists_cons_of_ne_nil h
  simp [errorHere, SyntaxError.atEnd, current?_of_ahead hahead]

/-! ## One error after the other -/

/-- The recorded errors are about tokens before the cursor, as long as it is not at the end, and in
the order in which the tokens stand. -/
structure Orderly (tokens : TokenList) (c : Cursor) : Prop extends Among tokens c where
  located : ∀ error ∈ c.errors.toList, error.Located tokens
  index_lt : c.ahead ≠ [] → ∀ error ∈ c.errors.toList, error.index < c.position
  increasing : c.errors.toList.Pairwise fun first second =>
    second.atEnd = false → first.index < second.index

/-- At the start no error is recorded that could be out of order. -/
theorem orderly_start (file : Option String) (tokens : TokenList) :
    (start file tokens).Orderly tokens :=
  ⟨among_start file tokens, by simp [start], by simp [start], by simp [start]⟩

/-- Passing a token records nothing and moves the cursor on. -/
theorem Orderly.pass (h : c.Orderly tokens) : c.advance.Orderly tokens := by
  cases hahead : c.ahead with
  | nil =>
    rw [advance_of_ahead_nil hahead]
    exact h
  | cons token rest =>
    rw [advance_of_ahead hahead]
    have hmoves := moves_pass hahead
    refine ⟨h.toAmong.moves hmoves, h.located, ?_, h.increasing⟩
    intro _ error herror
    have hlt := h.index_lt (by simp [hahead]) error herror
    rw [hmoves.position_eq]
    omega

/-- The new error is about the token at which it was raised, which is not before those of the
others. Unless all tokens are passed by then, recovery leaves that token behind. -/
theorem Orderly.recover (h : m.Orderly tokens) (hgives : Glides m c) (complaint : Complaint) :
    (c.recover (m.errorHere complaint)).Orderly tokens := by
  obtain ⟨glided, hglided, -⟩ := Glides.exists_moves hgives
  obtain ⟨skipped, hskipped, hsome⟩ := exists_moves_recover c (m.errorHere complaint)
  have hmoves := hglided.trans hskipped
  have herrors := hmoves.errors
  rw [List.nil_append] at herrors
  constructor
  · exact h.toAmong.moves hmoves
  · intro error herror
    rw [herrors, List.mem_append, List.mem_singleton] at herror
    rcases herror with herror | rfl
    · exact h.located error herror
    · exact h.toAmong.located complaint
  · intro hahead error herror
    have hc : c.ahead ≠ [] := by
      rw [hskipped.ahead]
      exact List.append_ne_nil_of_right_ne_nil _ hahead
    have hm : m.ahead ≠ [] := by
      rw [hglided.ahead]
      exact List.append_ne_nil_of_right_ne_nil _ hc
    have hpassed := List.length_pos_iff.mpr (hsome hc)
    rw [hmoves.position_eq, List.length_append]
    rw [herrors, List.mem_append, List.mem_singleton] at herror
    rcases herror with herror | rfl
    · have hlt := h.index_lt hm error herror
      omega
    · have hindex : (m.errorHere complaint).index = m.position := rfl
      omega
  · rw [herrors, List.pairwise_append]
    refine ⟨h.increasing, List.pairwise_singleton _ _, ?_⟩
    intro first hfirst second hsecond hnot
    rw [List.mem_singleton] at hsecond
    subst hsecond
    have hm : m.ahead ≠ [] := by
      intro hnil
      rw [atEnd_errorHere hnil] at hnot
      cases hnot
    exact h.index_lt hm first hfirst

/-- The errors stay in order on every way. -/
theorem Orderly.steps (h : c.Orderly tokens) (hsteps : Steps c c') : c'.Orderly tokens := by
  induction hsteps with
  | refl => exact h
  | tail _ hstep ih =>
    cases hstep with
    | pass => exact ih.pass
    | recover complaint hgives => exact ih.recover hgives complaint

section Orderly

variable {first second : SyntaxError}

/-- Of two errors the later one is about the end if the earlier one is. -/
theorem Orderly.pairwise_atEnd (h : c.Orderly tokens) :
    c.errors.toList.Pairwise fun first second => first.atEnd = true → second.atEnd = true := by
  refine h.increasing.imp_of_mem ?_
  intro first second hfirst hsecond hlt hend
  by_contra hnot
  have hindex := hlt (by simpa using hnot)
  have hle := (h.located second hsecond).index_le
  rw [(h.located first hfirst).atEnd_iff] at hend
  omega

/-- The recorded errors are about places that follow each other. -/
theorem Orderly.pairwise_index (h : c.Orderly tokens) :
    c.errors.toList.Pairwise fun first second => first.index ≤ second.index := by
  refine h.increasing.imp_of_mem ?_
  intro first second hfirst hsecond hlt
  cases hend : second.atEnd with
  | false => exact Nat.le_of_lt (hlt hend)
  | true =>
    have hle := (h.located first hfirst).index_le
    rw [(h.located second hsecond).atEnd_iff] at hend
    omega

/-- Where the lines of the tokens never go back, those of the errors do not either. -/
theorem Orderly.pairwise_line (h : c.Orderly tokens) (hlines : tokens.lines.Pairwise (· ≤ ·)) :
    c.errors.toList.Pairwise fun first second => first.line ≤ second.line := by
  refine h.pairwise_index.imp_of_mem ?_
  intro first second hfirst hsecond hle
  obtain ⟨hlt, hline⟩ := List.getElem?_eq_some_iff.mp (h.located first hfirst).line_eq
  obtain ⟨hlt', hline'⟩ := List.getElem?_eq_some_iff.mp (h.located second hsecond).line_eq
  rw [← hline, ← hline']
  rcases Nat.lt_or_eq_of_le hle with hindex | hindex
  · exact List.pairwise_iff_getElem.mp hlines _ _ hlt hlt' hindex
  · simp [hindex]

end Orderly

/-! ## Errors about the end -/

/-- How many of the recorded errors are about the end of the text. -/
def lateErrors (c : Cursor) : Nat := c.errors.toList.countP SyntaxError.atEnd

/-- Recovery records one error, which counts if it is about the end. -/
theorem lateErrors_recover (c : Cursor) (error : SyntaxError) :
    (c.recover error).lateErrors = c.lateErrors + if error.atEnd then 1 else 0 := by
  obtain ⟨skipped, hmoves, -⟩ := exists_moves_recover c error
  unfold lateErrors
  rw [hmoves.errors, List.countP_append, List.countP_singleton]

/-- As long as a way has not come to the end, no error on it was about the end. -/
theorem Steps.lateErrors_eq (h : Steps c c') (hahead : c'.ahead ≠ []) :
    c'.lateErrors = c.lateErrors := by
  induction h with
  | refl => rfl
  | @tail m c' _ hstep ih =>
    have hm : m.ahead ≠ [] := by
      intro hnil
      have hle := Steps.length_le (ReflTransGen.single hstep)
      rw [hnil, List.length_nil, Nat.le_zero, List.length_eq_zero_iff] at hle
      exact hahead hle
    rw [← ih hm]
    cases hstep with
    | pass =>
      obtain ⟨token, rest, hcons⟩ := List.exists_cons_of_ne_nil hm
      rw [advance_of_ahead hcons]
      rfl
    | @recover c complaint hgives =>
      obtain ⟨glided, hglided, -⟩ := Glides.exists_moves hgives
      have hsame : c.lateErrors = m.lateErrors := by
        unfold lateErrors
        rw [hglided.errors_eq]
      rw [lateErrors_recover, atEnd_errorHere_eq_false hm, hsame]
      rfl

/-- All errors that were recorded blame the mark for a target. -/
def BlamesMarks (c : Cursor) : Prop := ∀ error ∈ c.errors.toList, error.BlamesMark

/-- What was recorded on the way is raised by rules of the grammar. -/
def Records (c c' : Cursor) : Prop :=
  ∀ error ∈ c'.errors.toList, error ∈ c.errors.toList ∨ error.Raised

/-- Where nothing was recorded, nothing strange was. -/
theorem records_of_errors_eq (herrors : c'.errors = c.errors) : c.Records c' := by
  intro error hmem
  rw [herrors] at hmem
  exact .inl hmem

/-- What was recorded on two ways in a row was recorded on the whole way. -/
theorem Records.trans (h : c.Records m) (h' : m.Records c') : c.Records c' := by
  intro error hmem
  rcases h' error hmem with hmem | hraised
  · exact h error hmem
  · exact .inr hraised

/-- Recovery records an error that a rule has raised. -/
theorem Records.recover (h : c.Records c') {error : SyntaxError} (herror : error.Raised) :
    c.Records (c'.recover error) := by
  obtain ⟨skipped, hmoves, -⟩ := exists_moves_recover c' error
  intro other hother
  rw [hmoves.errors, List.mem_append, List.mem_singleton] at hother
  rcases hother with hother | rfl
  · exact h other hother
  · exact .inr herror

/-- Errors that rules raise blame the mark for a target, so all recorded ones still do. -/
theorem BlamesMarks.records (h : c.BlamesMarks) (hrecords : c.Records c') : c'.BlamesMarks := by
  intro error hmem
  rcases hrecords error hmem with hmem | hraised
  · exact h error hmem
  · exact hraised.blamesMark

end Cursor

namespace Parse

open Cursor

variable {α β : Type} {late : Nat}

/-- The action fails with an error of its own only. -/
def Raises (action : Parse α) : Prop :=
  ∀ c error c', outcome action c = (.error error, c') → error.Raised

/-- Returning a value raises nothing. -/
theorem raises_pure (a : α) : Raises (pure a : Parse α) := by
  intro c error c' hout
  simp at hout

/-- An ordinary complaint at a cursor is an error of the rules. -/
theorem raised_errorHere (c : Cursor) {complaint : Complaint} (h : complaint.isOrdinary = true) :
    (c.errorHere complaint).Raised := by
  constructor
  · rintro text heq
    rw [show complaint = .described text from heq] at h
    cases h
  · intro heq
    rw [show complaint = .invalidTarget from heq] at h
    cases h

/-- An ordinary complaint is an error of the rules. -/
theorem raises_fail {complaint : Complaint} (h : complaint.isOrdinary = true) :
    Raises (fail complaint : Parse α) := by
  intro c error c' hout
  rw [outcome_fail, Prod.mk.injEq, Except.error.injEq] at hout
  exact hout.1 ▸ raised_errorHere c h

/-- What an expectation raises is an error of the rules. -/
theorem raises_expect (kind : Token.Kind) {complaint : Complaint}
    (h : complaint.isOrdinary = true) : Raises (expect kind complaint) := by
  intro c error c' hout
  cases hat : c.isAt kind with
  | false =>
    rw [outcome_expect_of_not_isAt complaint hat, Prod.mk.injEq, Except.error.injEq] at hout
    exact hout.1 ▸ raised_errorHere c h
  | true =>
    obtain ⟨token, rest, hahead, rfl⟩ := exists_ahead_of_isAt hat
    rw [outcome_expect_of_ahead complaint hahead] at hout
    simp at hout

/-- Actions in a row raise what one of them raises. -/
theorem Raises.bind {action : Parse α} {next : α → Parse β} (h : Raises action)
    (hnext : ∀ a, Raises (next a)) : Raises (action >>= next) := by
  intro c error c' hout
  rcases hfirst : outcome action c with ⟨raised | a, m⟩
  · rw [outcome_bind_of_error hfirst, Prod.mk.injEq, Except.error.injEq] at hout
    rw [← hout.1]
    exact h c raised m hfirst
  · rw [outcome_bind_of_ok hfirst] at hout
    exact hnext a m error c' hout

/-- Looking at the cursor raises nothing. -/
theorem raises_get_bind {next : Cursor → Parse β} (h : ∀ c, Raises (next c)) :
    Raises (get >>= next) := by
  intro c error c' hout
  rw [outcome_get_bind] at hout
  exact h c c error c' hout

/-- Passing a token raises nothing. -/
theorem raises_advance_bind {next : Unit → Parse β} (h : Raises (next ())) :
    Raises (advance >>= next) := by
  intro c error c' hout
  rw [outcome_advance_bind] at hout
  exact h c.advance error c' hout

/-- The action records no more errors about the end than that many, and none at all if it starts at
the end. All that it raises and records are errors of its own. -/
structure Finishes (late : Nat) (action : Parse α) : Prop where
  follows : Follows Step action
  lateErrors_le : ∀ c, (outcome action c).2.lateErrors ≤ c.lateErrors + late
  errors_eq : ∀ c, c.ahead = [] → (outcome action c).2.errors = c.errors
  raises : Raises action
  records : ∀ c : Cursor, c.Records (outcome action c).2

/-- An action that records nothing finishes. -/
theorem Finishes.of_errors_eq {action : Parse α} (hfollows : Follows Step action)
    (hraises : Raises action) (h : ∀ c, (outcome action c).2.errors = c.errors) :
    Finishes late action where
  follows := hfollows
  lateErrors_le := by
    intro c
    unfold lateErrors
    rw [h c]
    exact Nat.le_add_right _ _
  errors_eq := fun c _ => h c
  raises := hraises
  records := fun c => records_of_errors_eq (h c)

/-- A bound on the errors about the end may be raised. -/
theorem Finishes.succ {action : Parse α} (h : Finishes late action) :
    Finishes (late + 1) action :=
  { h with lateErrors_le := fun c => (h.lateErrors_le c).trans (by omega) }

/-- A rule for expressions records nothing. -/
theorem Follows.errors_eq {action : Parse α} (h : Follows Glide action) (c : Cursor) :
    (outcome action c).2.errors = c.errors := by
  rcases hout : outcome action c with ⟨error | a, c'⟩
  · obtain ⟨m, complaint, hraised, hgives, -⟩ := (h c).of_error hout
    obtain ⟨tokens, hmoves, -⟩ := Glides.exists_moves (hraised.trans hgives)
    exact hmoves.errors_eq
  · obtain ⟨tokens, hmoves, -⟩ := Glides.exists_moves ((h c).of_ok hout)
    exact hmoves.errors_eq

/-- Returning a value records nothing. -/
theorem finishes_pure (a : α) : Finishes late (pure a : Parse α) :=
  .of_errors_eq (followsAt_pure a) (raises_pure a) fun _ => rfl

/-- Raising an ordinary complaint records nothing. -/
theorem finishes_fail {complaint : Complaint} (h : complaint.isOrdinary = true) :
    Finishes late (fail complaint : Parse α) :=
  .of_errors_eq (followsAt_fail complaint) (raises_fail h) fun _ => rfl

/-- An expectation records nothing. -/
theorem finishes_expect (kind : Token.Kind) {complaint : Complaint}
    (h : complaint.isOrdinary = true) : Finishes late (expect kind complaint) := by
  refine .of_errors_eq (follows_expect kind complaint) (raises_expect kind h) fun c => ?_
  cases hat : c.isAt kind with
  | false => rw [outcome_expect_of_not_isAt complaint hat]
  | true =>
    obtain ⟨token, rest, hahead, rfl⟩ := exists_ahead_of_isAt hat
    rw [outcome_expect_of_ahead complaint hahead, errors_behind]

/-- A chain has no more late errors than the worse of its actions: if there is one in the first
action, then the second one starts at the end. -/
theorem Finishes.bind {action : Parse α} {next : α → Parse β} (h : Finishes late action)
    (hnext : ∀ a, Finishes late (next a)) : Finishes late (action >>= next) where
  follows := h.follows.bind fun a => (hnext a).follows
  lateErrors_le := by
    intro c
    have hfirstLe := h.lateErrors_le c
    rcases hfirst : outcome action c with ⟨error | a, m⟩
    · rw [hfirst] at hfirstLe
      rw [outcome_bind_of_error hfirst]
      exact hfirstLe
    · rw [hfirst] at hfirstLe
      dsimp only at hfirstLe
      rw [outcome_bind_of_ok hfirst]
      by_cases hend : m.ahead = []
      · have hsame : (outcome (next a) m).2.lateErrors = m.lateErrors := by
          unfold lateErrors
          rw [(hnext a).errors_eq m hend]
        omega
      · have hsame := Steps.lateErrors_eq ((h.follows c).of_ok hfirst) hend
        have hsecondLe := (hnext a).lateErrors_le m
        omega
  errors_eq := by
    intro c hend
    have hfirstEq := h.errors_eq c hend
    rcases hfirst : outcome action c with ⟨error | a, m⟩
    · rw [hfirst] at hfirstEq
      rw [outcome_bind_of_error hfirst]
      exact hfirstEq
    · rw [hfirst] at hfirstEq
      rw [outcome_bind_of_ok hfirst]
      have hm := (RunsOut.of_steps hend ((h.follows c).of_ok hfirst)).ahead_eq
      rw [(hnext a).errors_eq m hm]
      exact hfirstEq
  raises := h.raises.bind fun a => (hnext a).raises
  records := by
    intro c
    have hrecords := h.records c
    rcases hfirst : outcome action c with ⟨error | a, m⟩
    · rw [hfirst] at hrecords
      rw [outcome_bind_of_error hfirst]
      exact hrecords
    · rw [hfirst] at hrecords
      rw [outcome_bind_of_ok hfirst]
      exact hrecords.trans ((hnext a).records m)

/-- An action that does at each cursor what some finishing action does there. -/
theorem Finishes.of_outcome_eq {action : Parse α}
    (h : ∀ c, ∃ rule : Parse α, Finishes late rule ∧ outcome action c = outcome rule c) :
    Finishes late action where
  follows := by
    intro c
    obtain ⟨rule, hrule, heq⟩ := h c
    rw [FollowsAt, heq]
    exact hrule.follows c
  lateErrors_le := by
    intro c
    obtain ⟨rule, hrule, heq⟩ := h c
    rw [heq]
    exact hrule.lateErrors_le c
  errors_eq := by
    intro c hend
    obtain ⟨rule, hrule, heq⟩ := h c
    rw [heq]
    exact hrule.errors_eq c hend
  raises := by
    intro c error c' hout
    obtain ⟨rule, hrule, heq⟩ := h c
    exact hrule.raises c error c' (heq ▸ hout)
  records := by
    intro c
    obtain ⟨rule, hrule, heq⟩ := h c
    rw [heq]
    exact hrule.records c

/-- Looking at the cursor records nothing. -/
theorem finishes_get_bind {next : Cursor → Parse β} (h : ∀ c, Finishes late (next c)) :
    Finishes late (get >>= next) :=
  .of_outcome_eq fun c => ⟨next c, h c, outcome_get_bind next c⟩

/-- Passing a token records nothing. -/
theorem finishes_advance_bind {next : Unit → Parse β} (h : Finishes late (next ())) :
    Finishes late (advance >>= next) := by
  refine Finishes.bind ?_ fun _ => h
  refine .of_errors_eq (fun c => ReflTransGen.single (Step.pass c)) ?_ fun c => ?_
  · intro c error c' hout
    simp at hout
  · cases hahead : c.ahead with
    | nil => rw [outcome_advance, advance_of_ahead_nil hahead]
    | cons token rest => rw [outcome_advance, advance_of_ahead hahead, errors_behind]

end Parse

namespace Grammar

open Cursor Parse

variable {late : Nat} {inner : Nested}

/-- The parsers one level further in finish with no more late errors than that many. -/
structure NestedFinishes (late : Nat) (inner : Nested) : Prop where
  group : Raises inner.group
  body : Finishes late inner.body
  block : Finishes late inner.block

section Expressions

/-- What a primary raises is an error of the rules. -/
theorem raises_primary (h : Raises inner.group) : Raises (primary inner) := by
  refine raises_get_bind fun c => ?_
  cases c.current? with
  | none => exact raises_fail (by simp)
  | some token =>
    obtain ⟨kind, text, line⟩ := token
    cases kind with
    | number => exact raises_advance_bind (raises_pure _)
    | name => exact raises_advance_bind (raises_pure _)
    | openParen =>
      refine raises_advance_bind (h.bind fun node => ?_)
      exact (raises_expect _ (by simp)).bind fun _ => raises_pure node
    | _ => exact raises_fail (by simp)

/-- What a row of operators raises is an error of the rules. -/
theorem raises_chainFrom (operator? : Token.Kind → Option Operator) {operand : Parse Node}
    (h : Raises operand) (rounds : List Token) (left : Node) :
    Raises (chainFrom operator? operand rounds left) := by
  induction rounds generalizing left with
  | nil => exact raises_pure left
  | cons round rounds ih =>
    intro c error c' hout
    cases hsign : c.ahead.head?.bind (operator? ·.kind) with
    | none =>
      rw [outcome_chainFrom_of_none _ left hsign] at hout
      simp at hout
    | some op =>
      obtain ⟨token, hhead, hop⟩ := Option.bind_eq_some_iff.mp hsign
      obtain ⟨rest, hahead⟩ := List.head?_eq_some_iff.mp hhead
      rw [outcome_chainFrom_of_some round rounds left hahead hop] at hout
      exact h.bind (fun right => ih _) _ error c' hout

/-- What an operand of any row raises is an error of the rules. -/
theorem raises_operandAt (h : Raises inner.group) (row : Nat) : Raises (operandAt inner row) := by
  induction row with
  | zero => exact raises_primary h
  | succ row ih =>
    exact ih.bind fun first => raises_get_bind fun c => raises_chainFrom _ ih c.ahead first

/-- Only here a target is refused, and the cursor of the error is the one in front of the mark. -/
theorem raises_assignRest (h : Raises inner.group) (target : Node) :
    Raises (assignRest inner target) := by
  intro m error c' hout
  cases hat : m.isAt .assign with
  | false =>
    rw [outcome_assignRest_of_not_assign target hat] at hout
    simp at hout
  | true =>
    obtain ⟨mark, rest, hahead, hmark⟩ := exists_ahead_of_isAt hat
    rw [outcome_assignRest_of_assign target hahead hmark] at hout
    rcases hvalue : outcome inner.group (m.behind [mark] rest) with ⟨raised | value, last⟩
    · rw [hvalue, Prod.mk.injEq, Except.error.injEq] at hout
      rw [← hout.1]
      exact h _ raised last hvalue
    · rw [hvalue] at hout
      cases hassign : assignment? target value with
      | some node => simp [hassign] at hout
      | none =>
        simp only [hassign, Prod.mk.injEq, Except.error.injEq] at hout
        rw [← hout.1]
        exact ⟨by simp [errorHere], fun _ => ⟨mark, current?_of_ahead hahead, hmark⟩⟩

/-- An expression records nothing, and what it raises about its target blames the mark. -/
theorem finishes_expression (hfollows : NestedFollows inner) (h : NestedFinishes late inner) :
    Finishes late (expression inner) := by
  have hglides := follows_expression hfollows.group
  have hraises : Raises (expression inner) :=
    (raises_operandAt h.group 4).bind (raises_assignRest h.group)
  exact .of_errors_eq hglides.toStep hraises hglides.errors_eq

/-- An expression and a token behind it. -/
theorem finishes_expression_end (hfollows : NestedFollows inner) (h : NestedFinishes late inner)
    (kind : Token.Kind) {complaint : Complaint} (hcomplaint : complaint.isOrdinary = true)
    {next : Node → Parse Node} (hnext : ∀ value, Finishes late (next value)) :
    Finishes late (do
      let value ← expression inner
      let _ ← expect kind complaint
      next value) := by
  refine (finishes_expression hfollows h).bind fun value => ?_
  exact (finishes_expect kind hcomplaint).bind fun _ => hnext value

end Expressions

section Statements

/-- A statement that evaluates records nothing. -/
theorem finishes_expressionStatement (hfollows : NestedFollows inner)
    (h : NestedFinishes late inner) : Finishes late (expressionStatement inner) := by
  refine finishes_get_bind fun c => ?_
  exact finishes_expression_end hfollows h _ (by simp) fun value => finishes_pure _

/-- A statement that prints records nothing. -/
theorem finishes_printStatement (hfollows : NestedFollows inner) (h : NestedFinishes late inner) :
    Finishes late (printStatement inner) := by
  refine (finishes_expect _ (by simp)).bind fun word => ?_
  exact finishes_expression_end hfollows h _ (by simp) fun value => finishes_pure _

/-- A conditional records what its branches record. If the first one has come to the end, there is
no second one. -/
theorem finishes_ifStatement (hfollows : NestedFollows inner) (h : NestedFinishes late inner) :
    Finishes late (ifStatement inner) := by
  refine (finishes_expect _ (by simp)).bind fun word => ?_
  refine (finishes_expect _ (by simp)).bind fun _ => ?_
  refine finishes_expression_end hfollows h _ (by simp) fun condition => ?_
  refine h.body.bind fun thenBranch => finishes_get_bind fun c => ?_
  split_ifs
  · exact finishes_advance_bind (h.body.bind fun elseBranch => finishes_pure _)
  · exact finishes_pure _

/-- A loop records what its body records. -/
theorem finishes_whileStatement (hfollows : NestedFollows inner) (h : NestedFinishes late inner) :
    Finishes late (whileStatement inner) := by
  refine (finishes_expect _ (by simp)).bind fun word => ?_
  refine (finishes_expect _ (by simp)).bind fun _ => ?_
  refine finishes_expression_end hfollows h _ (by simp) fun condition => ?_
  exact h.body.bind fun body => finishes_pure _

/-- A statement records what the rule records that its first token selects. -/
theorem finishes_statement (hfollows : NestedFollows inner) (h : NestedFinishes late inner) :
    Finishes late (statement inner) := by
  refine .of_outcome_eq fun c => ?_
  rw [outcome_statement]
  split_ifs
  · exact ⟨_, finishes_printStatement hfollows h, rfl⟩
  · exact ⟨_, finishes_ifStatement hfollows h, rfl⟩
  · exact ⟨_, finishes_whileStatement hfollows h, rfl⟩
  · exact ⟨_, h.block, rfl⟩
  · exact ⟨_, finishes_expressionStatement hfollows h, rfl⟩

/-- A declaration of a variable records nothing. -/
theorem finishes_varDeclaration (hfollows : NestedFollows inner) (h : NestedFinishes late inner) :
    Finishes late (varDeclaration inner) := by
  refine (finishes_expect _ (by simp)).bind fun word => ?_
  refine (finishes_expect _ (by simp)).bind fun name => finishes_get_bind fun c => ?_
  split_ifs
  · refine finishes_advance_bind ?_
    exact finishes_expression_end hfollows h _ (by simp) fun initial => finishes_pure _
  · exact (finishes_expect _ (by simp)).bind fun _ => finishes_pure _

/-- An attempt at a declaration records what the rule records that its first token selects. -/
theorem finishes_attempt (hfollows : NestedFollows inner) (h : NestedFinishes late inner) :
    Finishes late (attempt inner) := by
  refine finishes_get_bind fun c => ?_
  split_ifs
  · exact finishes_varDeclaration hfollows h
  · exact finishes_statement hfollows h

end Statements

section Declarations

/-- A declaration adds at most its own error to those found inside it. -/
theorem finishes_declaration (hfollows : NestedFollows inner) (h : NestedFinishes late inner)
    (c : Cursor) :
    (Walk.outcome (declaration inner) c).2.lateErrors ≤ c.lateErrors + (late + 1) ∧
      c.Records (Walk.outcome (declaration inner) c).2 := by
  have hattempt := finishes_attempt hfollows h
  have hle := hattempt.lateErrors_le c
  have hrecords := hattempt.records c
  rcases hout : outcome (attempt inner) c with ⟨error | node, m⟩
  · rw [hout] at hle hrecords
    dsimp only at hle
    rw [outcome_declaration_of_error hout]
    constructor
    · rw [lateErrors_recover]
      split_ifs <;> omega
    · exact hrecords.recover (hattempt.raises c error m hout)
  · rw [hout] at hle hrecords
    dsimp only at hle
    rw [outcome_declaration_of_ok hout]
    exact ⟨hle.trans (by omega), hrecords⟩

/-- A loop over declarations is over as soon as one of them has come to the end, so only the last
one of them has late errors. -/
theorem Rounds.finishes {stop : Cursor → Bool} {c c' : Cursor} {parts : List (List Token × Node)}
    (hfollows : NestedFollows inner) (h : NestedFinishes late inner) (hend : EndsList stop)
    (hrounds : Rounds stop (declaration inner) c parts c') :
    c'.lateErrors ≤ c.lateErrors + (late + 1) ∧ c.Records c' := by
  induction hrounds with
  | done => exact ⟨Nat.le_add_right _ _, records_of_errors_eq rfl⟩
  | @next c m c' tokens found node parts hgoes hout hmoves hrest ih =>
    obtain ⟨hle, hrecords⟩ := finishes_declaration hfollows h c
    rw [hout] at hle hrecords
    dsimp only at hle hrecords
    refine ⟨?_, hrecords.trans ih.2⟩
    by_cases hahead : m.ahead = []
    · cases hrest with
      | done => exact hle
      | next hgoes => simp [hend.at_end m hahead] at hgoes
    · have hsteps := steps_declaration hfollows c
      rw [hout] at hsteps
      have hsame := Steps.lateErrors_eq hsteps hahead
      rw [← hsame]
      exact ih.1

/-- A list of declarations records errors of the rules only. -/
theorem records_declarations {stop : Cursor → Bool} (hfollows : NestedFollows inner)
    (h : NestedFinishes late inner) (hend : EndsList stop) (c : Cursor) :
    c.Records (Walk.outcome (declarations stop (declaration inner)) c).2 := by
  obtain ⟨parts, c', hrounds, hout⟩ := exists_rounds hfollows hend c
  rw [hout]
  exact (hrounds.finishes hfollows h hend).2

/-- A list of declarations records at most one error about the end more than each declaration
may. -/
theorem finishes_declarations {stop : Cursor → Bool} (hfollows : NestedFollows inner)
    (h : NestedFinishes late inner) (hend : EndsList stop) (c : Cursor) :
    (Walk.outcome (declarations stop (declaration inner)) c).2.lateErrors ≤
        c.lateErrors + (late + 1) ∧
      (c.BlamesMarks →
        (Walk.outcome (declarations stop (declaration inner)) c).2.BlamesMarks) := by
  have hrecords := records_declarations hfollows h hend c
  obtain ⟨parts, c', hrounds, hout⟩ := exists_rounds hfollows hend c
  rw [hout] at hrecords ⊢
  exact ⟨(hrounds.finishes hfollows h hend).1, fun hc => hc.records hrecords⟩

/-- A block records the errors of its declarations, and one more about the end if it is not
closed. -/
theorem finishes_braced (hfollows : NestedFollows inner) (h : NestedFinishes late inner) :
    Finishes (late + 1) (braced (declaration inner)) := by
  refine (finishes_expect _ (by simp)).bind fun mark => ?_
  refine Finishes.bind ?_ fun nodes => (finishes_expect _ (by simp)).bind fun _ => finishes_pure _
  constructor
  · intro c
    exact steps_declarations blockEnd hfollows c
  · exact fun c => (finishes_declarations hfollows h endsList_blockEnd c).1
  · intro c hnil
    have hstop : Walk.outcome (declarations blockEnd (declaration inner)) c = ([], c) :=
      outcome_declarations_of_stop (endsList_blockEnd.at_end c hnil)
    exact congrArg (fun result => result.2.errors) hstop
  · intro c error c' hout
    cases hout
  · exact fun c => records_declarations hfollows h endsList_blockEnd c

/-- Each level further out allows one more late error. -/
theorem nestedFinishes (levels : Nat) : NestedFinishes levels (nested levels) := by
  induction levels with
  | zero => exact ⟨raises_fail (by simp), finishes_fail (by simp), finishes_fail (by simp)⟩
  | succ levels ih =>
    have hfollows := nestedFollows levels
    exact ⟨(finishes_expression hfollows ih).raises, (finishes_statement hfollows ih).succ,
      finishes_braced hfollows ih⟩

end Declarations

end Grammar

section Split

variable {α : Type} {p : α → Bool} {members : List α}

/-- If what comes behind a member with the property has it too, then the members without it come
first. -/
theorem eq_filter_append_filter
    (h : members.Pairwise fun first second => p first = true → p second = true) :
    members = members.filter (fun a => !p a) ++ members.filter p := by
  induction members with
  | nil => rfl
  | cons first rest ih =>
    obtain ⟨hfirst, hrest⟩ := List.pairwise_cons.mp h
    cases hp : p first with
    | false => simpa [hp] using ih hrest
    | true =>
      have hall : ∀ a ∈ rest, p a = true := fun a ha => hfirst a ha hp
      have hnone : rest.filter (fun a => !p a) = [] := by
        rw [List.filter_eq_nil_iff]
        intro a ha
        simp [hall a ha]
      simp [hp, hnone, List.filter_eq_self.mpr hall]

/-- The last of such members has the property if any of them has it. -/
theorem exists_getLast?_iff
    (h : members.Pairwise fun first second => p first = true → p second = true) :
    (∃ a, members.getLast? = some a ∧ p a = true) ↔ ∃ a ∈ members, p a = true := by
  constructor
  · rintro ⟨a, hlast, hp⟩
    exact ⟨a, List.mem_of_getLast? hlast, hp⟩
  · rintro ⟨a, ha, hp⟩
    have hne := List.ne_nil_of_mem ha
    refine ⟨_, List.getLast?_eq_some_getLast hne, ?_⟩
    rw [← List.dropLast_append_getLast hne] at ha h
    rw [List.mem_append, List.mem_singleton] at ha
    rcases ha with ha | rfl
    · exact (List.pairwise_append.mp h).2.2 a ha _ (List.mem_singleton_self _) hp
    · exact hp

end Split

namespace Program

open Cursor Grammar

variable {file : Option String} {text : String} {program : Program}

/-- The cursor at the end of a program has its errors in order. -/
theorem orderly_program (file : Option String) (tokens : TokenList) :
    (Walk.outcome Grammar.program (start file tokens)).2.Orderly tokens :=
  (orderly_start file tokens).steps (steps_declarations isAtEnd (nestedFollows maxNesting) _)

/-- The errors of a program are raised by rules of the grammar. -/
theorem raised_of_mem_errors {tokens : TokenList} {error : SyntaxError}
    (h : error ∈ (ofTokens file tokens).errors) : error.Raised := by
  have hrecords := records_declarations (nestedFollows maxNesting) (nestedFinishes maxNesting)
    endsList_isAtEnd (start file tokens)
  rcases hrecords error h with hmem | hraised
  · simp [start] at hmem
  · exact hraised

/-- In a program that can be scanned, every error names the token at its index and the line of that
token; where a target is refused, that token is the assignment mark. The errors that are about a
token come first, at indices that only grow. Then come the errors about the end of the text, at most
49, one for each level and one for the outermost. The lines of the errors never go back. So the
last error is about the end exactly if there is an error about the end. -/
theorem errors_in_order (h : Program.ofText file text = .ok program) :
    (∀ error ∈ program.errors, error.Located program.tokens ∧ error.BlamesMark) ∧
    ((program.errors.filter fun error => !error.atEnd).map SyntaxError.index).Pairwise (· < ·) ∧
    (∃ early late, program.errors = early ++ late ∧ (∀ error ∈ early, error.atEnd = false) ∧
      (∀ error ∈ late, error.atEnd = true) ∧ late.length ≤ 49) ∧
    (program.errors.map SyntaxError.line).Pairwise (· ≤ ·) ∧
    ((∃ error, program.errors.getLast? = some error ∧ error.atEnd = true) ↔
      ∃ error ∈ program.errors, error.atEnd = true) := by
  obtain ⟨tokens, htokens, rfl⟩ := exists_tokens_of_ofText h
  have horderly := orderly_program file tokens
  have hfinishes := finishes_declarations (nestedFollows maxNesting) (nestedFinishes maxNesting)
    endsList_isAtEnd (start file tokens)
  have hsplit := eq_filter_append_filter horderly.pairwise_atEnd
  rw [← errors_ofTokens] at hsplit
  refine ⟨?_, ?_, ?_, ?_, ?_⟩
  · intro error herror
    exact ⟨horderly.located error herror, hfinishes.2 (by simp [BlamesMarks, start]) error herror⟩
  · rw [List.pairwise_map]
    refine (horderly.increasing.filter _).imp_of_mem ?_
    intro first second _ hsecond hlt
    rw [List.mem_filter] at hsecond
    exact hlt (by simpa using hsecond.2)
  · refine ⟨_, _, hsplit, ?_, ?_, ?_⟩
    · intro error herror
      simpa using (List.mem_filter.mp herror).2
    · intro error herror
      exact (List.mem_filter.mp herror).2
    · rw [← List.countP_eq_length_filter]
      have hnone : (start file tokens).lateErrors = 0 := rfl
      have hle := hfinishes.1
      rw [hnone, Nat.zero_add] at hle
      exact hle
  · rw [List.pairwise_map]
    exact horderly.pairwise_line (TokenList.pairwise_lines htokens)
  · exact exists_getLast?_iff horderly.pairwise_atEnd

/-- The tokens of three lines, `(a) + b = 1;`, `{ {` and `print`. -/
def openBlocks : List Token :=
  [⟨.openParen, "(", 1⟩, ⟨.name, "a", 1⟩, ⟨.closeParen, ")", 1⟩, ⟨.plus, "+", 1⟩, ⟨.name, "b", 1⟩,
    ⟨.assign, "=", 1⟩, ⟨.number, "1", 1⟩, ⟨.semicolon, ";", 1⟩, ⟨.openBrace, "\x7b", 2⟩,
    ⟨.openBrace, "\x7b", 2⟩, ⟨.printWord, "print", 3⟩]

/-- A sum is no target, for which the mark is blamed after the value was passed. At the end a
statement and two blocks are still open. -/
theorem errors_in_order_openBlocks :
    ∃ program, Program.ofText none "(a) + b = 1;\n\x7b \x7b\nprint" = .ok program ∧
      program.errors.map SyntaxError.index = [5, 11, 11, 11] ∧
      program.errors.map SyntaxError.atEnd = [false, true, true, true] ∧
      (∀ error ∈ program.errors, error.Located program.tokens ∧ error.BlamesMark) ∧
      (program.errors.map SyntaxError.line).Pairwise (· ≤ ·) ∧
      ∃ early late, program.errors = early ++ late ∧ (∀ error ∈ early, error.atEnd = false) ∧
        (∀ error ∈ late, error.atEnd = true) ∧ late.length ≤ 49 := by
  have htokens : TokenList.ofText "(a) + b = 1;\n\x7b \x7b\nprint" = .ok ⟨openBlocks, 3⟩ := by
    decide +kernel
  have hprogram := ofText_of_tokens none htokens
  obtain ⟨hlocated, -, hsplit, hlines, -⟩ := errors_in_order hprogram
  exact ⟨_, hprogram, by decide +kernel, by decide +kernel, hlocated, hlines, hsplit⟩

/-- The bound is reached: in the innermost of all blocks a statement is open too. -/
example : (ofTokens none ⟨List.replicate maxNesting ⟨.openBrace, "\x7b", 1⟩ ++
    [⟨.printWord, "print", 1⟩], 1⟩).errors.countP SyntaxError.atEnd = maxNesting + 1 := by
  decide +kernel

end Program

end ScriptKit
