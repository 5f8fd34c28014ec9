import ScriptKit.Proofs.Execution
import ScriptKit.Proofs.GrammarCorrect
import ScriptKit.Proofs.Seam

/-!
# One text after the other

Two texts with a line feed between them run as the first one and then the second one would in the
same session, if nothing is wrong with the first one and the second one does not begin with an
`else`. Whatever is wrong with the second one is reported further down. Scanning, reading and
running each take the texts in turn, and this file puts the three together.
-/

set_option autoImplicit false

namespace ScriptKit

open Grammar

/-- The second line is so many lines further down. -/
def LoweredBy (lines : Nat) (line line' : SourceLine) : Prop :=
  line' = line.map (· + (lines : Int))

/-- The report on a text in front of which some lines were put. -/
def Report.lowered (lines : Nat) (report : Report) : Report :=
  { report with line := report.line.map (· + (lines : Int)) }

variable {lines : Nat}

/-- A token and the same one further down are alike. -/
theorem Token.alike_lowered (token : Token) :
    token.Alike (LoweredBy lines) (token.lowered lines) :=
  ⟨rfl, rfl, by simp [LoweredBy, Token.lowered]⟩

/-- A report further down. -/
theorem Report.Alike.eq_lowered {report report' : Report}
    (h : report.Alike (LoweredBy lines) report') : report' = report.lowered lines := by
  obtain ⟨fault, line, file⟩ := report'
  obtain ⟨rfl, rfl, rfl⟩ := h
  rfl

/-- Corresponding lists of errors say the same. -/
theorem map_report_of_forall₂ {offset : Nat} {errors errors' : List SyntaxError}
    (h : List.Forall₂ (SyntaxError.Alike (LoweredBy lines) offset) errors errors')
    (file : Option String) :
    errors'.map (·.report file) = (errors.map (·.report file)).map (Report.lowered lines) := by
  induction h with
  | nil => rfl
  | cons herror _ ih => simp only [List.map_cons, ih, (herror.report file).eq_lowered]

namespace Program

/-- Tokens put behind those of a program without errors are read as if they stood alone, only
further down. -/
theorem exists_statements_append (lines : Nat) {file : Option String}
    {tokens tokens' : TokenList} (h : (ofTokens file tokens).errors = [])
    (helse : headKind tokens'.tokens ≠ some .elseWord) :
    ∃ later, (ofTokens file ⟨tokens.tokens ++ tokens'.tokens.map (Token.lowered lines),
        tokens'.endLine + lines⟩).statements = (ofTokens file tokens).statements ++ later ∧
      List.Forall₂ (Node.Alike (LoweredBy lines) Eq) (ofTokens file tokens').statements later ∧
      List.Forall₂ (SyntaxError.Alike (LoweredBy lines) tokens.tokens.length)
        (ofTokens file tokens').errors
        (ofTokens file ⟨tokens.tokens ++ tokens'.tokens.map (Token.lowered lines),
          tokens'.endLine + lines⟩).errors := by
  obtain ⟨d, hfits, htokens, htree⟩ := exists_derivation_of_errors_eq_nil h
  have hread : Derivation.ReadsDeclarations d := d.reads
  have hhead : headKind (tokens'.tokens.map (Token.lowered lines)) ≠ some .elseWord := by
    cases htokens' : tokens'.tokens with
    | nil => simp
    | cons token rest =>
      rw [htokens'] at helse
      exact helse
  -- `m` is the place of the seam: reading from there resembles reading the second text alone.
  let c := Cursor.start file ⟨tokens.tokens ++ tokens'.tokens.map (Token.lowered lines),
    tokens'.endLine + lines⟩
  let m := c.behind tokens.tokens (tokens'.tokens.map (Token.lowered lines))
  have halike :
      (Cursor.start file tokens').Alike (LoweredBy lines) Eq tokens.tokens.length [] m := by
    refine ⟨rfl, by simp [m, c, Cursor.position, Cursor.start], ?_, ?_, [], rfl, .nil⟩
    · exact List.forall₂_map_right_iff.mpr
        (List.forall₂_same.mpr fun token _ => token.alike_lowered)
    · simp [LoweredBy, m, c, Cursor.start]
  obtain ⟨hnodes, hend⟩ := alike_program halike
  obtain ⟨later, hlater, hpairs⟩ := hend.errors
  have hprogram : Walk.outcome program c =
      (d.tree ++ (Walk.outcome program m).1, (Walk.outcome program m).2) := by
    have hahead : c.ahead = d.tokens ++ tokens'.tokens.map (Token.lowered lines) := by
      rw [htokens]
      rfl
    rw [program, outermost, hread endsList_isAtEnd hfits hahead hhead, htokens]
  refine ⟨(Walk.outcome program m).1, ?_, hnodes, ?_⟩
  · rw [statements_ofTokens, hprogram, htree]
  · rw [errors_ofTokens, errors_ofTokens, hprogram]
    rw [List.nil_append] at hlater
    rwa [hlater]

end Program

namespace Session

open Program

variable {session : Session} {fuel : Nat} {file : Option String} {text : String} {debug : Bool}

/-- What is wrong with statements that have run: nothing, or the failure that ended the run. -/
def reportsOf (session : Session) : Except Failure Unit → List Report
  | .ok () => []
  | .error failure => [failure.report session.file]

/-- The run of a text with a stray character. -/
theorem runText_of_stray {stray : StrayCharacter} (h : TokenList.ofText text = .error stray) :
    session.runText fuel file text debug =
      some ⟨session, "", [], [stray.report file], false⟩ := by
  rw [runText, Program.ofText, h]
  rfl

/-- The run of a text that can be scanned. -/
theorem runText_of_ofText {tokens : TokenList} (h : TokenList.ofText text = .ok tokens) :
    session.runText fuel file text debug =
      (Exec.outcome (Node.execAll fuel session.room (ofTokens file tokens).statements)
        ⟨session.vars, #[]⟩).map fun (result, machine) =>
          ⟨{ session with vars := machine.vars },
            if debug then (ofTokens file tokens).dump session.room else "",
            machine.printed.toList,
            (ofTokens file tokens).errors.map (·.report file) ++ session.reportsOf result,
            result.isOk && (ofTokens file tokens).errors.isEmpty⟩ := by
  rw [runText, Program.ofText, h, Except.map]
  dsimp only
  rw [runStatements, Exec.outcome]
  rcases Node.execAll fuel session.room (ofTokens file tokens).statements ⟨session.vars, #[]⟩ with
    _ | ⟨_ | _, machine⟩ <;> rfl

/-- Each way through a run gives the verdict of its own, and on each it is good if and only if there
is nothing to report. -/
theorem ok_iff_of_runText {run : Run} (h : session.runText fuel file text debug = some run) :
    run.ok = true ↔ run.reports = [] := by
  cases htokens : TokenList.ofText text with
  | error stray =>
    rw [runText_of_stray htokens] at h
    cases h
    simp
  | ok tokens =>
    rw [runText_of_ofText htokens, Option.map_eq_some_iff] at h
    obtain ⟨⟨result, machine⟩, -, rfl⟩ := h
    cases result with
    | error failure => simp [reportsOf, Except.isOk, Except.toBool]
    | ok _ => simp [reportsOf, Except.isOk, Except.toBool]

/-- What a run with nothing to report has gone through. -/
theorem exists_of_runText_eq_some {run : Run}
    (h : session.runText fuel file text debug = some run) (hok : run.reports = []) :
    ∃ tokens machine, TokenList.ofText text = .ok tokens ∧ (ofTokens file tokens).errors = [] ∧
      Exec.outcome (Node.execAll fuel session.room (ofTokens file tokens).statements)
        ⟨session.vars, #[]⟩ = some (.ok (), machine) ∧
      run.session = { session with vars := machine.vars } ∧
      run.printed = machine.printed.toList := by
  cases htokens : TokenList.ofText text with
  | error stray =>
    rw [runText_of_stray htokens] at h
    cases h
    cases hok
  | ok tokens =>
    rw [runText_of_ofText htokens, Option.map_eq_some_iff] at h
    obtain ⟨⟨result, machine⟩, hout, rfl⟩ := h
    rw [List.append_eq_nil_iff, List.map_eq_nil_iff] at hok
    cases result with
    | error failure => cases hok.2
    | ok _ => exact ⟨tokens, machine, rfl, hok.1, hout, rfl, rfl⟩

/-- More fuel does not change a run that has come to its end. -/
theorem runText_mono {fuel' : Nat} (hfuel : fuel ≤ fuel') {run : Run}
    (h : session.runText fuel file text debug = some run) :
    session.runText fuel' file text debug = some run := by
  cases htokens : TokenList.ofText text with
  | error stray =>
    rw [runText_of_stray htokens] at h ⊢
    exact h
  | ok tokens =>
    rw [runText_of_ofText htokens, Option.map_eq_some_iff] at h ⊢
    obtain ⟨result, hout, hrun⟩ := h
    exact ⟨result, Node.extends_execAll hfuel _ _ _ _ hout, hrun⟩

/-- Without debugging nothing is dumped. -/
theorem dump_of_runText {run : Run} (h : session.runText fuel file text false = some run) :
    run.dump = "" := by
  cases htokens : TokenList.ofText text with
  | error stray =>
    rw [runText_of_stray htokens] at h
    cases h
    rfl
  | ok tokens =>
    rw [runText_of_ofText htokens, Option.map_eq_some_iff] at h
    obtain ⟨result, -, rfl⟩ := h
    rfl

/-- What is left of a run of two texts in one, compared with their runs one after the other. -/
structure Joins (lines : Nat) (first second both : Run) : Prop where
  session_eq : both.session = second.session
  printed_eq : both.printed = first.printed ++ second.printed
  reports_eq : both.reports = second.reports.map (Report.lowered lines)

/-- With some fuel the two texts run out of it both in one and one after the other, or the runs
join. -/
theorem joins_of_runText {first second : String} {run : Run} {tokens : TokenList}
    (hfirst : session.runText fuel file first debug = some run) (hok : run.reports = [])
    (hsecond : TokenList.ofText second = .ok tokens)
    (helse : headKind tokens.tokens ≠ some .elseWord) :
    (run.session.runText fuel file second debug = none ∧
      session.runText fuel file (first ++ "\n" ++ second) debug = none) ∨
    ∃ later both, run.session.runText fuel file second debug = some later ∧
      session.runText fuel file (first ++ "\n" ++ second) debug = some both ∧
      Joins (1 + first.toList.count '\n') run later both := by
  obtain ⟨before, machine, hbefore, herrors, hout, hsession, hprinted⟩ :=
    exists_of_runText_eq_some hfirst hok
  have hboth := TokenList.ofText_append_newline hbefore second
  rw [hsecond] at hboth
  rw [← TokenList.endLine_of_ofText hbefore]
  obtain ⟨nodes, hnodes, halike, hpairs⟩ :=
    exists_statements_append before.endLine herrors helse
  have hreports := map_report_of_forall₂ hpairs file
  have hmachines : Machine.Alike machine.printed.toList ⟨machine.vars, #[]⟩ machine :=
    ⟨rfl, by simp⟩
  have hexec := alike_execAll (show LoweredBy before.endLine none none from rfl) fuel session.room
    halike _ _ hmachines
  rw [runText_of_ofText hboth, runText_of_ofText hsecond, hnodes,
    Node.outcome_execAll_append hout, hsession]
  revert hexec
  generalize Exec.outcome (Node.execAll fuel session.room (ofTokens file tokens).statements)
    ⟨machine.vars, #[]⟩ = result
  generalize Exec.outcome (Node.execAll fuel session.room nodes) machine = result'
  rintro (_ | ⟨_, hend⟩ | ⟨hfailure, hend⟩)
  · exact .inl ⟨rfl, rfl⟩
  · refine .inr ⟨_, _, rfl, rfl, ?_, ?_, ?_⟩
    · simp [hend.vars_eq]
    · rw [hprinted]
      exact hend.printed_eq
    · simp [hreports, reportsOf]
  · refine .inr ⟨_, _, rfl, rfl, ?_, ?_, ?_⟩
    · simp [hend.vars_eq]
    · rw [hprinted]
      exact hend.printed_eq
    · simp [hreports, reportsOf, (hfailure.report session.file).eq_lowered]

/-- Two texts with a line feed between them run as the first one and then, in the session that it
leaves behind, the second one. Either both ways go on forever, or both end, with the same variables,
the same printed lines, the verdict on the second text, and its messages further down by the lines
of the first text. -/
theorem runText_append_newline {first second : String} {run : Run} {tokens : TokenList}
    (hfirst : session.runText fuel file first debug = some run) (hok : run.ok = true)
    (hsecond : TokenList.ofText second = .ok tokens)
    (helse : headKind tokens.tokens ≠ some .elseWord) :
    ((∀ fuel, run.session.runText fuel file second debug = none) ∧
      ∀ fuel, session.runText fuel file (first ++ "\n" ++ second) debug = none) ∨
    ∃ (enough : Nat) (later both : Run), (∀ fuel ≥ enough,
        session.runText fuel file first debug = some run ∧
        run.session.runText fuel file second debug = some later ∧
        session.runText fuel file (first ++ "\n" ++ second) debug = some both) ∧
      both.session = later.session ∧ both.printed = run.printed ++ later.printed ∧
      (debug = false → both.out = run.out ++ later.out) ∧ both.ok = later.ok ∧
      both.reports = later.reports.map (Report.lowered (1 + first.toList.count '\n')) ∧
      both.err = String.join
        (later.reports.map fun report =>
          (report.lowered (1 + first.toList.count '\n')).entry) := by
  have hreports : run.reports = [] := (ok_iff_of_runText hfirst).mp hok
  by_cases hforever : ∀ fuel, run.session.runText fuel file second debug = none
  · refine .inl ⟨hforever, fun fuel' => ?_⟩
    have hmore := runText_mono (le_max_left fuel fuel') hfirst
    obtain ⟨-, hnone⟩ | ⟨later, both, hlater, -⟩ := joins_of_runText hmore hreports hsecond helse
    · cases hboth : session.runText fuel' file (first ++ "\n" ++ second) debug with
      | none => rfl
      | some both =>
        rw [runText_mono (le_max_right fuel fuel') hboth] at hnone
        cases hnone
    · rw [hforever] at hlater
      cases hlater
  · obtain ⟨fuel', hends⟩ := not_forall.mp hforever
    obtain ⟨later, hlater⟩ := Option.ne_none_iff_exists'.mp hends
    have hmore := runText_mono (le_max_left fuel fuel') hfirst
    have hlater' := runText_mono (le_max_right fuel fuel') hlater
    obtain ⟨hnone, -⟩ | ⟨later', both, hlater'', hboth, hjoins⟩ :=
      joins_of_runText hmore hreports hsecond helse
    · rw [hlater'] at hnone
      cases hnone
    · obtain rfl : later = later' := Option.some.inj (hlater'.symm.trans hlater'')
      refine .inr ⟨max fuel fuel', later, both, fun fuel'' hfuel => ?_, hjoins.session_eq,
        hjoins.printed_eq, fun hdebug => ?_, ?_, hjoins.reports_eq, ?_⟩
      · exact ⟨runText_mono hfuel hmore, runText_mono hfuel hlater', runText_mono hfuel hboth⟩
      · subst hdebug
        rw [Run.out, Run.out, Run.out, dump_of_runText hfirst, dump_of_runText hlater,
          dump_of_runText hboth, hjoins.printed_eq, List.map_append, String.join_append]
        simp
      · rw [Bool.eq_iff_iff, ok_iff_of_runText hboth, ok_iff_of_runText hlater, hjoins.reports_eq,
          List.map_eq_nil_iff]
      · rw [Run.err, hjoins.reports_eq, List.map_map]
        rfl

/-- A session in which only `x` is declared. -/
def declaredX : Session := ⟨none, .standard, (∅ : Variables).insert "x" .null⟩

/-- A variable that is not declared, on the line below a declaration. -/
theorem runText_append_newline_undefined :
    (fresh .standard none).runText 1 none "var x;" false =
      some ⟨declaredX, "", [], [], true⟩ ∧
    TokenList.ofText "y;" = .ok ⟨[⟨.name, "y", 1⟩, ⟨.semicolon, ";", 1⟩], 1⟩ ∧
    ∃ (enough : Nat) (both : Run),
      (∀ fuel ≥ enough,
        (fresh .standard none).runText fuel none ("var x;" ++ "\n" ++ "y;") false = some both) ∧
      both.session = declaredX ∧
      both.reports = [⟨.runtime (.undefinedVariable "y"), some 2, none⟩] := by
  have htokens : TokenList.ofText "var x;" =
      .ok ⟨[⟨.varWord, "var", 1⟩, ⟨.name, "x", 1⟩, ⟨.semicolon, ";", 1⟩], 1⟩ := by decide +kernel
  have htokens' : TokenList.ofText "y;" =
      .ok ⟨[⟨.name, "y", 1⟩, ⟨.semicolon, ";", 1⟩], 1⟩ := by decide +kernel
  have hfirst : (fresh .standard none).runText 1 none "var x;" false =
      some ⟨declaredX, "", [], [], true⟩ := by
    rw [runText_of_ofText htokens]
    rfl
  have hsecond : declaredX.runText 1 none "y;" false =
      some ⟨declaredX, "", [], [⟨.runtime (.undefinedVariable "y"), some 1, none⟩], false⟩ := by
    rw [runText_of_ofText htokens']
    rfl
  refine ⟨hfirst, htokens', ?_⟩
  obtain ⟨hforever, -⟩ | ⟨enough, later, both, hruns, hsession, -, -, -, hreports, -⟩ :=
    runText_append_newline hfirst rfl htokens' (by decide)
  · rw [hforever 1] at hsecond
    cases hsecond
  · refine ⟨enough, both, fun fuel hfuel => (hruns fuel hfuel).2.2, ?_⟩
    have hlater := (hruns (max enough 1) (le_max_left enough 1)).2.1
    rw [runText_mono (le_max_right enough 1) hsecond, Option.some.injEq] at hlater
    subst hlater
    exact ⟨hsession, hreports⟩

end Session

end ScriptKit
