import ScriptKit.Proofs.Markers
import ScriptKit.Proofs.Messages
import ScriptKit.Proofs.Sequence

/-!
# What a run reports

A text with a stray character does nothing but report it. Every other text runs: its statements
without the markers for malformed ones are executed one after the other, up to the first failure.
The error stream has a line for each syntax error and then one for the failure, if there is one.

A marker does nothing, so the statements do the same without the markers in them, unless a marker
stands too deep to be entered. In a program that was read it never does, because statements stand in
each other only as deep as the grammar allows.
-/

set_option autoImplicit false

namespace ScriptKit

open Grammar

/-! ## Statements without markers -/

namespace Node

mutual

/-- The statement without the markers in its blocks. -/
@[simp] def withoutMarkers : Node → Node
  | block statements line => .block (dropMarkers statements) line
  | ifThen condition thenBranch line => .ifThen condition thenBranch.withoutMarkers line
  | ifElse condition thenBranch elseBranch line =>
    .ifElse condition thenBranch.withoutMarkers elseBranch.withoutMarkers line
  | loop condition body line => .loop condition body.withoutMarkers line
  | other => other

/-- The statements that are no markers, without the markers in their blocks. -/
@[simp] def dropMarkers : List Node → List Node
  | [] => []
  | first :: rest =>
    if first.isMarker then dropMarkers rest else first.withoutMarkers :: dropMarkers rest

end

mutual

/-- How many levels deep statements stand in each other. -/
@[simp] def nesting : Node → Nat
  | block statements _ => nestingOf statements + 1
  | ifThen _ thenBranch _ => thenBranch.nesting + 1
  | ifElse _ thenBranch elseBranch _ => max thenBranch.nesting elseBranch.nesting + 1
  | loop _ body _ => body.nesting + 1
  | _ => 1

/-- How many levels deep the deepest of the statements is. -/
@[simp] def nestingOf : List Node → Nat
  | [] => 0
  | first :: rest => max first.nesting (nestingOf rest)

end

/-- Statements are at most so many levels deep if each of them is. -/
theorem nestingOf_le_iff {nodes : List Node} {bound : Nat} :
    nestingOf nodes ≤ bound ↔ ∀ node ∈ nodes, node.nesting ≤ bound := by
  induction nodes with
  | nil => simp
  | cons first rest ih => simp [ih]

/-- A statement takes a level for itself. -/
theorem nesting_pos (node : Node) : 0 < node.nesting := by
  cases node <;> simp

/-- An expression of a text has no markers. -/
theorem ExpressionFrom.markers_eq {tokens : List Token} {node : Node}
    (h : node.ExpressionFrom tokens) : node.markers = [] := by
  induction h with
  | literal | reference => rfl
  | binary _ _ _ _ ihlhs ihrhs => simp [ihlhs, ihrhs]
  | assign _ _ _ ih => exact ih

/-- No marker is left if none is left in the statements that are kept. -/
theorem markersOf_dropMarkers {nodes : List Node}
    (h : ∀ node ∈ nodes, node.isMarker = false → node.withoutMarkers.markers = []) :
    markersOf (dropMarkers nodes) = [] := by
  induction nodes with
  | nil => rfl
  | cons first rest ih =>
    rw [List.forall_mem_cons] at h
    cases hmarker : first.isMarker with
    | true => simpa [hmarker] using ih h.2
    | false => simp [hmarker, h.1 hmarker, ih h.2]

/-- Where markers are in their places in statements, they are in each of them. -/
theorem placesMarkers_of_mem {nodes : List Node} (h : placeMarkers nodes = true) {node : Node}
    (hmem : node ∈ nodes) : node.placesMarkers = true := by
  induction nodes with
  | nil => cases hmem
  | cons first rest ih =>
    rw [placeMarkers, Bool.and_eq_true] at h
    rcases List.mem_cons.mp hmem with rfl | hmem
    · exact h.1
    · exact ih h.2 hmem

/-- Where markers stand in blocks only, none of them is left. -/
theorem StatementFrom.markers_withoutMarkers {tokens : List Token} {node : Node}
    (h : node.StatementFrom tokens) (hmarker : node.isMarker = false)
    (hplaces : node.placesMarkers = true) : node.withoutMarkers.markers = [] := by
  induction h with
  | evaluate _ hvalue | print _ hvalue | define _ _ hvalue => exact hvalue.markers_eq
  | declare => rfl
  | ifThen _ hcondition _ ihthen =>
    simp only [placesMarkers, Bool.and_eq_true, Bool.not_eq_true'] at hplaces
    simp [hcondition.markers_eq, ihthen hplaces.2.1 hplaces.2.2]
  | ifElse _ hcondition _ _ ihthen ihelse =>
    simp only [placesMarkers, Bool.and_eq_true, Bool.not_eq_true'] at hplaces
    simp [hcondition.markers_eq, ihthen hplaces.1.2.1 hplaces.1.2.2,
      ihelse hplaces.2.1 hplaces.2.2]
  | loop _ hcondition _ ihbody =>
    simp only [placesMarkers, Bool.and_eq_true, Bool.not_eq_true'] at hplaces
    simp [hcondition.markers_eq, ihbody hplaces.2.1 hplaces.2.2]
  | block _ _ ih =>
    exact markersOf_dropMarkers fun node hmem hnot =>
      ih node hmem hnot (placesMarkers_of_mem hplaces hmem)
  | skipped => cases hmarker

end Node

namespace Exec

/-- Steps that do nothing for markers need not be taken for them. -/
theorem extends_dropMarkers {step : Node → Exec Unit} {nodes : List Node}
    (hmarker : ∀ node ∈ nodes, node.isMarker = true → Extends (step node) (pure ()))
    (hstep : ∀ node ∈ nodes, Extends (step node) (step node.withoutMarkers)) :
    Extends (forAll step nodes) (forAll step (Node.dropMarkers nodes)) := by
  induction nodes with
  | nil => exact .refl _
  | cons first rest ih =>
    rw [List.forall_mem_cons] at hmarker hstep
    have hrest := ih hmarker.2 hstep.2
    rw [Node.dropMarkers]
    cases hfirst : first.isMarker with
    | true => exact (hmarker.1 hfirst).bind fun _ => hrest
    | false => exact hstep.1.bind fun _ => hrest

end Exec

namespace Node

/-- Where it may be entered, a marker does nothing. -/
theorem extends_exec_marker (fuel : Nat) {room : Headroom} {node : Node}
    (h : node.isMarker = true) (hroom : (Headroom.levels node.nesting).Within room) :
    Exec.Extends (node.exec fuel room) (pure ()) := by
  cases node with
  | skipped message line =>
    obtain ⟨inner, henter, -⟩ := hroom.enter rfl
    cases fuel with
    | zero => intro machine result hout; cases hout
    | succ fuel =>
      rw [exec, henter]
      exact .refl _
  | _ => cases h

/-- A statement does the same without the markers in it, if there is room for all of it. -/
theorem extends_exec_withoutMarkers (fuel : Nat) {room : Headroom} (node : Node)
    (h : (Headroom.levels node.nesting).Within room) :
    Exec.Extends (node.exec fuel room) (node.withoutMarkers.exec fuel room) := by
  induction fuel generalizing room node with
  | zero => intro machine result hout; cases hout
  | succ fuel ih =>
    -- A loop goes on as itself, in the room in which it was entered.
    have hloop := ih node h
    cases node with
    | block statements line =>
      obtain ⟨inner, henter, hinner⟩ := h.enter rfl
      have hfits : ∀ node ∈ statements, (Headroom.levels node.nesting).Within inner :=
        fun node hmem => hinner.of_le (nestingOf_le_iff.mp le_rfl node hmem)
      rw [withoutMarkers, exec, exec, henter]
      exact Exec.extends_dropMarkers
        (fun node hmem hmarker => extends_exec_marker fuel hmarker (hfits node hmem))
        fun node hmem => ih node (hfits node hmem)
    | ifThen condition thenBranch line =>
      obtain ⟨inner, henter, hinner⟩ := h.enter rfl
      rw [withoutMarkers, exec, exec, henter]
      refine (Exec.Extends.refl _).bind fun value => ?_
      split_ifs
      · exact ih thenBranch hinner
      · exact .refl _
    | ifElse condition thenBranch elseBranch line =>
      obtain ⟨inner, henter, hinner⟩ := h.enter rfl
      rw [withoutMarkers, exec, exec, henter]
      refine (Exec.Extends.refl _).bind fun value => ?_
      split_ifs
      · exact ih thenBranch (hinner.of_le (Nat.le_max_left ..))
      · exact ih elseBranch (hinner.of_le (Nat.le_max_right ..))
    | loop condition body line =>
      obtain ⟨inner, henter, hinner⟩ := h.enter rfl
      rw [withoutMarkers, exec, exec, henter]
      refine (Exec.Extends.refl _).bind fun value => ?_
      split_ifs
      · exact (ih body hinner).bind fun _ => hloop
      · exact .refl _
    | _ => exact .refl _

/-- Statements do the same without the markers in them, if there is room for all of them. -/
theorem extends_execAll_dropMarkers (fuel : Nat) {room : Headroom} {nodes : List Node}
    (h : (Headroom.levels (nestingOf nodes)).Within room) :
    Exec.Extends (execAll fuel room nodes) (execAll fuel room (dropMarkers nodes)) := by
  have hfits : ∀ node ∈ nodes, (Headroom.levels node.nesting).Within room :=
    fun node hmem => h.of_le (nestingOf_le_iff.mp le_rfl node hmem)
  exact Exec.extends_dropMarkers
    (fun node hmem hmarker => extends_exec_marker fuel hmarker (hfits node hmem))
    fun node hmem => extends_exec_withoutMarkers fuel node (hfits node hmem)

end Node

namespace Grammar

/-- How many levels deep statements stand in what was read. -/
def Yield.nesting : Yield → Nat
  | .statement node | .declaration node => node.nesting
  | .declarations _ nodes => Node.nestingOf nodes

/-- Statements stand in each other at most one level deeper than levels were left. -/
theorem Reads.nesting_le {levels : Nat} {c c' : Cursor} {yield : Yield}
    (hreads : Reads levels c yield c') : yield.nesting ≤ levels + 1 := by
  induction hreads with
  | print | evaluate | declare | define => exact Nat.le_add_left 1 _
  | plain _ _ ih => exact ih
  | ifThen _ _ _ _ _ _ _ ihthen => exact Nat.succ_le_succ ihthen
  | ifElse _ _ _ _ _ _ _ _ _ _ _ ihthen ihelse =>
    exact Nat.succ_le_succ (Nat.max_le.mpr ⟨ihthen, ihelse⟩)
  | loop _ _ _ _ _ _ _ ihbody => exact Nat.succ_le_succ ihbody
  | block _ _ _ _ _ ihinner => exact Nat.succ_le_succ ihinner
  | done => exact Nat.zero_le _
  | next _ _ _ _ ihfirst ihrest => exact Nat.max_le.mpr ⟨ihfirst, ihrest⟩
  | giveUp _ _ _ _ ihrest => exact Nat.max_le.mpr ⟨Nat.le_add_left 1 _, ihrest⟩

end Grammar

namespace Program

variable {file : Option String} {text : String} {program : Program}

/-- The statements of a program stand in each other only as deep as the grammar allows. -/
theorem nestingOf_le (file : Option String) (tokens : TokenList) :
    Node.nestingOf (ofTokens file tokens).statements ≤ maxNesting + 1 := by
  obtain ⟨c', hreads⟩ := reads_ofTokens file tokens
  exact hreads.nesting_le

/-- No marker is left of a program without its markers. -/
theorem markersOf_dropMarkers (file : Option String) (tokens : TokenList) :
    Node.markersOf (Node.dropMarkers (ofTokens file tokens).statements) = [] := by
  obtain ⟨c', hreads⟩ := reads_ofTokens file tokens
  have hfrom := hreads.yieldFrom (List.suffix_refl _)
  obtain ⟨-, -, hplaces⟩ := markers_ofTokens file tokens
  exact Node.markersOf_dropMarkers fun node hmem hmarker =>
    (hfrom node hmem).markers_withoutMarkers hmarker (Node.placesMarkers_of_mem hplaces hmem)

/-- Where a program fails that was read from a text, the report on it is one line. -/
theorem oneLine_failure {tokens : TokenList} (h : TokenList.ofText text = .ok tokens) {fuel : Nat}
    {room : Headroom} {machine machine' : Machine} {failure : Failure}
    (hrun : Exec.outcome (Node.execAll fuel room (ofTokens file tokens).statements) machine =
      some (.error failure, machine'))
    {name : Option String} (hname : ∀ text ∈ name, OneLine text) :
    OneLine (failure.report name).headline := by
  obtain ⟨c', hreads⟩ := reads_ofTokens file tokens
  have hfrom := hreads.yieldFrom (List.suffix_refl _)
  have hspelled : Spelled tokens.tokens := fun token hmem op hkind =>
    TokenList.text_eq_spelling h hmem hkind
  have hmeets := Exec.keeps_forAll (fun node hmem =>
    (hfrom node hmem).keepsAll sustained_true hspelled fuel room) machine _ machine' trivial hrun
  have hcomes := hmeets.fails_of_error failure rfl
  have htext := hcomes.oneLine_text fun token hmem => TokenList.oneLine_text h hmem
  exact Report.oneLine_headline htext hname

end Program

/-! ## Runs -/

/-- Statements run one after the other on a machine, to the end or up to the first failure. -/
inductive Node.InTurn (fuel : Nat) (room : Headroom) :
    Machine → List Node → Except Failure Unit → Machine → Prop where
  | done (machine : Machine) : InTurn fuel room machine [] (.ok ()) machine
  | next {machine middle machine' : Machine} {first : Node} {rest : List Node}
      {result : Except Failure Unit}
      (hfirst : Exec.outcome (first.exec fuel room) machine = some (.ok (), middle))
      (hrest : InTurn fuel room middle rest result machine') :
      InTurn fuel room machine (first :: rest) result machine'
  | fail {machine machine' : Machine} {first : Node} {failure : Failure} (rest : List Node)
      (hfirst : Exec.outcome (first.exec fuel room) machine = some (.error failure, machine')) :
      InTurn fuel room machine (first :: rest) (.error failure) machine'

/-- What the interpreter comes to with statements is what they come to in turn. -/
theorem Node.inTurn_of_outcome_execAll {fuel : Nat} {room : Headroom} {nodes : List Node}
    {machine machine' : Machine} {result : Except Failure Unit}
    (h : Exec.outcome (Node.execAll fuel room nodes) machine = some (result, machine')) :
    Node.InTurn fuel room machine nodes result machine' := by
  induction nodes generalizing machine with
  | nil =>
    cases h
    exact .done _
  | cons first rest ih =>
    rw [Node.execAll, Exec.forAll, Exec.outcome_bind] at h
    rcases hfirst : Exec.outcome (first.exec fuel room) machine with _ | ⟨failure | _, middle⟩
    · simp [hfirst] at h
    · simp only [hfirst, Option.some.injEq, Prod.mk.injEq] at h
      obtain ⟨rfl, rfl⟩ := h
      exact .fail rest hfirst
    · rw [hfirst] at h
      exact .next hfirst (ih h)

namespace Run

/-- The error stream has these reports, in this order and each on a line of its own. -/
structure Tells (run : Run) (reports : List Report) : Prop where
  err_eq : run.err = String.join (reports.map fun report => report.headline ++ "\n")
  oneLine : ∀ report ∈ reports, OneLine report.headline
  count_eq : run.err.toList.count '\n' = reports.length

/-- Reports of one line each are told as so many lines. -/
theorem count_join_entries {reports : List Report}
    (h : ∀ report ∈ reports, OneLine report.headline) :
    (String.join (reports.map Report.entry)).toList.count '\n' = reports.length := by
  induction reports with
  | nil => rfl
  | cons first rest ih =>
    rw [List.forall_mem_cons] at h
    rw [List.map_cons, String.join_cons, Report.entry_eq, String.toList_append,
      String.toList_append, List.count_append, List.count_append, ih h.2,
      List.count_eq_zero_of_not_mem h.1, List.length_cons]
    simp [Nat.add_comm]

/-- A run tells its reports if each of them is one line. -/
theorem tells_reports {run : Run} (h : ∀ report ∈ run.reports, OneLine report.headline) :
    run.Tells run.reports :=
  ⟨rfl, h, count_join_entries h⟩

/-- Nothing is on the error stream exactly if there is nothing to report. -/
theorem err_eq_empty_iff (run : Run) : run.err = "" ↔ run.reports = [] := by
  rw [err]
  cases run.reports with
  | nil => simp
  | cons first rest =>
    have hne : first.entry ++ String.join (rest.map Report.entry) ≠ "" := by
      intro heq
      have hlist := congrArg String.toList heq
      rw [Report.entry_eq, String.toList_append, String.toList_append] at hlist
      have hbreak := (List.append_eq_nil_iff.mp (List.append_eq_nil_iff.mp hlist).1).2
      exact absurd hbreak (by decide)
    rw [List.map_cons, String.join_cons]
    exact iff_of_false hne (List.cons_ne_nil _ _)

end Run

namespace Session

variable {session : Session} {fuel : Nat} {file : Option String} {text : String} {run : Run}

/-- What a run tells and leaves behind, if the names in its reports have no line feed. A text with a
stray character is not run, and the character is told. Every other text is run, one statement after
the other. If the session has room for the nesting of the statements, which the grammar bounds, the
run is that of the statements without the markers. Its syntax errors are told in the order in which
they were found, and then the failure that ended the run, if there was one. The verdict, which each
of these ways of a run sets for itself, is good if and only if nothing is told. -/
theorem runText_tells (hfile : ∀ name ∈ file, OneLine name)
    (hsession : ∀ name ∈ session.file, OneLine name)
    (h : session.runText fuel file text false = some run) :
    (∀ stray, TokenList.ofText text = .error stray →
      run.Tells [stray.report file] ∧ run.out = "" ∧ run.session = session ∧ run.ok = false) ∧
    (∀ program, Program.ofText file text = .ok program →
      Node.markersOf (Node.dropMarkers program.statements) = [] ∧
      Node.nestingOf program.statements ≤ maxNesting + 1 ∧
      ∃ result machine,
        Node.InTurn fuel session.room ⟨session.vars, #[]⟩ program.statements result machine ∧
        ((Headroom.levels (Node.nestingOf program.statements)).Within session.room →
          Node.InTurn fuel session.room ⟨session.vars, #[]⟩ (Node.dropMarkers program.statements)
            result machine) ∧
        run.out = String.join (machine.printed.toList.map (· ++ "\n")) ∧
        run.session = { session with vars := machine.vars } ∧
        run.Tells (program.errors.map (·.report file) ++ session.reportsOf result)) ∧
    (run.ok = true ↔ run.err = "") := by
  refine ⟨?_, ?_, (ok_iff_of_runText h).trans run.err_eq_empty_iff.symm⟩
  · intro stray hstray
    rw [runText_of_stray hstray] at h
    cases h
    refine ⟨Run.tells_reports ?_, rfl, rfl, rfl⟩
    simpa using stray.oneLine_headline hstray hfile
  · intro program hprogram
    obtain ⟨tokens, htokens, rfl⟩ := Program.exists_tokens_of_ofText hprogram
    refine ⟨Program.markersOf_dropMarkers file tokens, Program.nestingOf_le file tokens, ?_⟩
    rw [runText_of_ofText htokens, Option.map_eq_some_iff] at h
    obtain ⟨⟨result, machine⟩, hout, rfl⟩ := h
    refine ⟨result, machine, Node.inTurn_of_outcome_execAll hout, fun hroom => ?_, ?_, rfl,
      Run.tells_reports fun report hmem => ?_⟩
    · exact Node.inTurn_of_outcome_execAll
        (Node.extends_execAll_dropMarkers fuel hroom _ _ hout)
    · simp [Run.out]
    · rcases List.mem_append.mp hmem with hmem | hmem
      · obtain ⟨error, herror, rfl⟩ := List.mem_map.mp hmem
        exact Program.oneLine_headline hprogram hfile herror
      · cases result with
        | ok _ => cases hmem
        | error failure =>
          obtain rfl := List.mem_singleton.mp hmem
          exact Program.oneLine_failure htokens hout hsession

/-- A session in which `x` is declared, with a name of its own and room for three levels. -/
def namedX : Session := ⟨some "host", .levels 3, (∅ : Variables).insert "x" .null⟩

/-- A malformed statement in a block, and a failure in front of a statement that is not reached. -/
def markedBlock : String := "\x7b print ; print x; \x7d\nprint y;\nprint x;"

/-- The tokens of `markedBlock`. -/
def markedBlockTokens : TokenList :=
  ⟨[⟨.openBrace, "\x7b", 1⟩, ⟨.printWord, "print", 1⟩, ⟨.semicolon, ";", 1⟩,
    ⟨.printWord, "print", 1⟩, ⟨.name, "x", 1⟩, ⟨.semicolon, ";", 1⟩, ⟨.closeBrace, "\x7d", 1⟩,
    ⟨.printWord, "print", 2⟩, ⟨.name, "y", 2⟩, ⟨.semicolon, ";", 2⟩, ⟨.printWord, "print", 3⟩,
    ⟨.name, "x", 3⟩, ⟨.semicolon, ";", 3⟩], 3⟩

/-- The marker in the block is passed over, and the third line is not reached. -/
theorem runText_tells_markedBlock :
    ∃ run program, namedX.runText 2 (some "script") markedBlock false = some run ∧
      Program.ofText (some "script") markedBlock = .ok program ∧ run.out = "null\n" ∧
      run.err = "ParseError: Expected expression, got ';' on line 1 in script\n" ++
        "UndefinedVariableException: Undefined variable 'y' on line 2 in host\n" ∧
      run.ok = false ∧
      ∃ result machine,
        Node.InTurn 2 (.levels 3) ⟨namedX.vars, #[]⟩ (Node.dropMarkers program.statements) result
          machine ∧
        run.session = { namedX with vars := machine.vars } ∧
        run.Tells (program.errors.map (·.report (some "script")) ++ namedX.reportsOf result) := by
  have htokens : TokenList.ofText markedBlock = .ok markedBlockTokens := by decide +kernel
  have hprogram := Program.ofText_of_tokens (some "script") htokens
  have hrun : namedX.runText 2 (some "script") markedBlock false =
      some ⟨namedX, "", ["null"],
        [⟨.malformed "Expected expression, got ';'" false, some 1, some "script"⟩,
          ⟨.runtime (.undefinedVariable "y"), some 2, some "host"⟩], false⟩ := by
    rw [runText_of_ofText htokens]
    rfl
  obtain ⟨-, hprograms, -⟩ := runText_tells (by decide) (by decide) hrun
  obtain ⟨-, -, result, machine, -, hturn, -, hsession, htells⟩ := hprograms _ hprogram
  exact ⟨_, _, hrun, hprogram, by decide +kernel, by decide +kernel, rfl, result, machine,
    hturn (.levels (by decide +kernel)), hsession, htells⟩

end Session

end ScriptKit
