import ScriptKit.Console
import ScriptKit.Proofs.Sequence
import ScriptKit.Proofs.Truncation

/-!
# A program typed line by line

Type the lines of a program into the console. After each line the lines that wait are read again.
If they stop in the middle of a statement, then every error in them is about the end of the text,
and they wait on. Otherwise they are a whole number of declarations, which run at once and leave
behind a program that is as good as the one before, in the session that it needs. So at the end
everything has run, in order and once.
-/

set_option autoImplicit false

namespace ScriptKit

open Grammar Program

/-- A line typed into the console: the prompt in front of it, and what came back. -/
structure Exchange where
  prompt : String
  dump : String
  printed : List String

/-- What an exchange writes on the output stream. -/
def Exchange.out (exchange : Exchange) : String :=
  exchange.prompt ++ (exchange.dump ++ String.join (exchange.printed.map (· ++ "\n")))

/-- Streams are joined one by one. -/
@[simp]
theorem Transcript.append_mk (out err out' err' : String) :
    (⟨out, err⟩ : Transcript) ++ (⟨out', err'⟩ : Transcript) = ⟨out ++ out', err ++ err'⟩ := rfl

namespace TokenList

/-- The empty text has no tokens and ends on its first line. -/
theorem ofText_empty : ofText "" = .ok ⟨[], 1⟩ := by
  rw [ofText, String.toList_empty, scan_nil, List.reverse_nil]

/-- The text does not begin with an `else`. -/
def NoElseFirst (text : String) : Prop :=
  ∀ tokens, ofText text = .ok tokens → headKind tokens.tokens ≠ some .elseWord

/-- Lines that do not begin with an `else` make a text that does not. -/
theorem noElseFirst_intercalate {lines : List String} (h : ∀ line ∈ lines, NoElseFirst line) :
    NoElseFirst ("\n".intercalate lines) := by
  induction lines with
  | nil =>
    intro tokens htokens
    rw [String.intercalate_nil, ofText_empty, Except.ok.injEq] at htokens
    rw [← htokens]
    simp
  | cons line rest ih =>
    have hline := h line (by simp)
    have hrest := ih fun other hother => h other (by simp [hother])
    cases rest with
    | nil => rwa [String.intercalate_singleton]
    | cons next rest =>
      intro tokens htokens
      rw [String.intercalate_cons_cons] at htokens
      obtain ⟨first, hfirst⟩ := exists_ofText_of_append htokens
      rw [ofText_append_newline hfirst] at htokens
      cases hsecond : ofText ("\n".intercalate (next :: rest)) with
      | error stray => simp [hsecond] at htokens
      | ok second =>
        rw [hsecond, Except.ok.injEq] at htokens
        rw [← htokens]
        have hhead := hline first hfirst
        have hhead' := hrest second hsecond
        cases hempty : first.tokens with
        | cons token tokens => simpa [hempty] using hhead
        | nil =>
          cases hempty' : second.tokens with
          | nil => simp
          | cons token tokens => simpa [hempty', Token.lowered] using hhead'

end TokenList

namespace Program

/-- A program without errors does not depend on the name of its text. -/
theorem ofTokens_file {file : Option String} {tokens : TokenList}
    (h : (ofTokens file tokens).errors = []) (file' : Option String) :
    (ofTokens file' tokens).statements = (ofTokens file tokens).statements ∧
      (ofTokens file' tokens).errors = [] := by
  obtain ⟨d, hfits, htokens, htree⟩ := exists_derivation_of_errors_eq_nil h
  rw [← htree]
  exact ofTokens_of_derivation hfits file' htokens

end Program

namespace Console

variable {fuel : Nat} {room : Headroom} {debug : Bool} {vars : Variables} {pending : List String}
  {line first second text : String} {machine : Machine}

/-! ## Texts that wait and texts that run -/

/-- The text is read without an error, and from the variables it runs to its end. -/
def RunsTo (fuel : Nat) (room : Headroom) (vars : Variables) (text : String)
    (machine : Machine) : Prop :=
  ∃ tokens, TokenList.ofText text = .ok tokens ∧ (ofTokens file tokens).errors = [] ∧
    Exec.outcome (Node.execAll fuel room (ofTokens file tokens).statements) ⟨vars, #[]⟩ =
      some (.ok (), machine)

/-- The text stops in the middle of a statement. -/
def Waits (text : String) : Prop :=
  ∃ tokens, TokenList.ofText text = .ok tokens ∧
    (ofTokens file tokens).errors.getLast?.any SyntaxError.atEnd = true

/-- A text that stops in the middle of a statement does not run to its end. -/
theorem Waits.not_runsTo (h : Waits text) : ¬ RunsTo fuel room vars text machine := by
  rintro ⟨tokens, htokens, herrors, -⟩
  obtain ⟨tokens', htokens', hlast⟩ := h
  obtain rfl : tokens = tokens' := Except.ok.inj (htokens.symm.trans htokens')
  simp [herrors] at hlast

/-- The empty text does nothing. -/
theorem runsTo_empty_iff : RunsTo fuel room vars "" machine ↔ machine = ⟨vars, #[]⟩ := by
  constructor
  · rintro ⟨tokens, htokens, -, hout⟩
    rw [TokenList.ofText_empty, Except.ok.injEq] at htokens
    subst htokens
    cases hout
    rfl
  · rintro rfl
    exact ⟨⟨[], 1⟩, TokenList.ofText_empty, rfl, rfl⟩

/-- A text that runs to its end, cut at a line break that no `else` follows: the first part waits,
or each part runs to its end on its own, the second where the first has stopped. -/
theorem RunsTo.cut (h : RunsTo fuel room vars (first ++ "\n" ++ second) machine)
    (helse : TokenList.NoElseFirst second) :
    Waits first ∨ ∃ middle machine', RunsTo fuel room vars first middle ∧
      RunsTo fuel room middle.vars second machine' ∧
        machine'.Alike middle.printed.toList machine := by
  obtain ⟨tokens, htokens, herrors, hout⟩ := h
  obtain ⟨before, hbefore⟩ := TokenList.exists_ofText_of_append htokens
  rw [TokenList.ofText_append_newline hbefore] at htokens
  cases hafter : TokenList.ofText second with
  | error stray => simp [hafter] at htokens
  | ok after =>
    rw [hafter, Except.ok.injEq] at htokens
    subst htokens
    -- Errors in the beginning of a correct text are all about its end.
    by_cases hnone : (ofTokens file before).errors = []
    · right
      obtain ⟨later, hstatements, halike, halike'⟩ :=
        exists_statements_append before.endLine hnone (helse after hafter)
      rw [herrors, List.forall₂_nil_right_iff] at halike'
      rw [hstatements] at hout
      obtain ⟨middle, hfirst, hlater⟩ := Node.exists_of_outcome_execAll_append hout
      have hsame := alike_execAll (show LoweredBy before.endLine none none from rfl) fuel
        room halike ⟨middle.vars, #[]⟩ middle
        ⟨rfl, (List.append_nil middle.printed.toList).symm⟩
      rw [hlater] at hsame
      generalize hsecond : Exec.outcome (Node.execAll fuel room
        (ofTokens file after).statements) ⟨middle.vars, #[]⟩ = outcome at hsame
      cases hsame with
      | ok _ hmachine =>
        exact ⟨middle, _, ⟨before, hbefore, hnone, hfirst⟩, ⟨after, hafter, halike', hsecond⟩,
          hmachine⟩
    · left
      refine ⟨before, hbefore, ?_⟩
      rw [List.getLast?_eq_some_getLast hnone, Option.any_some]
      exact atEnd_of_mem_errors herrors (List.getLast_mem hnone)

/-- Only the two words that leave the console do so, whatever blanks are around them. -/
theorem leaves_eq_false {console : Console} (h : Text.trimBlank line ∉ ["exit", "quit"]) :
    console.leaves line = false := by
  rw [leaves, Bool.and_eq_false_imp]
  intro _
  simpa using h

/-- What comes of a line that does not leave the console, if the lines that wait can be scanned. -/
theorem feed_of_ofText {console : Console} {tokens : TokenList}
    (hstays : console.leaves line = false)
    (htokens : TokenList.ofText ("\n".intercalate (console.pending ++ [line])) = .ok tokens) :
    console.feed fuel line =
      if (ofTokens file tokens).errors.getLast?.any SyntaxError.atEnd then
        some (.empty, some { console with pending := console.pending ++ [line] })
      else
        (console.session.runText fuel file ("\n".intercalate (console.pending ++ [line]))
          console.debug).map fun run =>
            (run.transcript, some { console with session := run.session, pending := [] }) := by
  have hprogram : Program.ofText file ("\n".intercalate (console.pending ++ [line])) =
      .ok (ofTokens file tokens) := by
    rw [Program.ofText, htokens]
    rfl
  simp only [feed, hstays, Bool.false_eq_true, if_false, hprogram]
  split
  · rfl
  · cases console.session.runText fuel file _ console.debug <;> rfl

/-- A line with which the text still waits is kept, and nothing is written. -/
theorem feed_of_waits {console : Console} (hleaves : Text.trimBlank line ∉ ["exit", "quit"])
    (h : Waits ("\n".intercalate (console.pending ++ [line]))) :
    console.feed fuel line =
      some (.empty, some { console with pending := console.pending ++ [line] }) := by
  obtain ⟨tokens, htokens, hlast⟩ := h
  rw [feed_of_ofText (leaves_eq_false hleaves) htokens, if_pos hlast]

/-- A line with which the text runs to its end writes what the program prints, behind the dump of
the tree if there is one. No line waits afterwards. -/
theorem feed_of_runsTo {console : Console} (hleaves : Text.trimBlank line ∉ ["exit", "quit"])
    (h : RunsTo fuel console.session.room console.session.vars
      ("\n".intercalate (console.pending ++ [line])) machine) :
    ∃ dump, (console.debug = false → dump = "") ∧ console.feed fuel line =
      some (⟨dump ++ String.join (machine.printed.toList.map (· ++ "\n")), ""⟩,
        some ⟨{ console.session with vars := machine.vars }, [], console.debug⟩) := by
  obtain ⟨tokens, htokens, herrors, hout⟩ := h
  refine ⟨if console.debug then (ofTokens file tokens).dump console.session.room else "",
    fun hdebug => ?_, ?_⟩
  · rw [hdebug]
    rfl
  · rw [feed_of_ofText (leaves_eq_false hleaves) htokens, herrors, if_neg (by simp),
      Session.runText_of_ofText htokens, hout]
    simp [Run.transcript, Run.out, Run.err, herrors, Session.reportsOf]

/-! ## Texts that are cut off -/

/-- The console takes the line without calling the text typed so far malformed: the lines wait, or
they run and nothing but the running program fails. -/
inductive TakesUp (fuel : Nat) (console : Console) (line : String) : Prop where
  | waits (hfeed : console.feed fuel line =
      some (.empty, some { console with pending := console.pending ++ [line] }))
  | runs (hfeed : console.feed fuel line =
        (console.session.runText fuel file ("\n".intercalate (console.pending ++ [line]))
          console.debug).map fun run =>
            (run.transcript, some { console with session := run.session, pending := [] }))
      (hreports : ∀ run, console.session.runText fuel file
          ("\n".intercalate (console.pending ++ [line])) console.debug = some run →
        ∀ report ∈ run.reports, report.fault.isRuntime = true)

/-- Only its own failure is reported of a text that is read without an error. -/
theorem isRuntime_of_runText {session : Session} {name : Option String} {tokens : TokenList}
    {run : Run} (htokens : TokenList.ofText text = .ok tokens)
    (herrors : (ofTokens name tokens).errors = [])
    (hrun : session.runText fuel name text debug = some run) :
    ∀ report ∈ run.reports, report.fault.isRuntime = true := by
  rw [Session.runText_of_ofText htokens, Option.map_eq_some_iff] at hrun
  obtain ⟨⟨result, machine⟩, -, rfl⟩ := hrun
  intro report hreport
  cases result with
  | ok _ => simp [herrors, Session.reportsOf] at hreport
  | error failure =>
    simp only [herrors, List.map_nil, List.nil_append, Session.reportsOf, List.mem_singleton]
      at hreport
    rw [hreport]
    rfl

/-- A text whose errors are all about its end is taken up. -/
theorem takesUp_of_atEnd {console : Console} {tokens : TokenList}
    (hstays : console.leaves line = false)
    (htokens : TokenList.ofText ("\n".intercalate (console.pending ++ [line])) = .ok tokens)
    (hends : ∀ error ∈ (ofTokens file tokens).errors, error.atEnd = true) :
    TakesUp fuel console line := by
  have hfeed : console.feed fuel line = _ := feed_of_ofText hstays htokens
  by_cases hnone : (ofTokens file tokens).errors = []
  · rw [hnone, if_neg (by simp)] at hfeed
    exact .runs hfeed fun run hrun => isRuntime_of_runText htokens hnone hrun
  · have hlast : (ofTokens file tokens).errors.getLast?.any SyntaxError.atEnd = true := by
      rw [List.getLast?_eq_some_getLast hnone, Option.any_some]
      exact hends _ (List.getLast_mem hnone)
    rw [if_pos hlast] at hfeed
    exact .waits hfeed

/-- The beginning of a text that is read without an error is read without an error too, or all that
is wrong with it is that it ends. So a console on which it is typed never calls it malformed. -/
theorem errors_of_isPrefix {name : Option String} {tokens : TokenList} {front : List Token}
    (hwhole : (ofTokens name tokens).errors = []) (hfront : front <+: tokens.tokens) :
    (∀ (name' : Option String) (endLine : Nat),
      (ofTokens name' ⟨front, endLine⟩).errors = [] ∨
        (ofTokens name' ⟨front, endLine⟩).errors ≠ [] ∧
          ∀ error ∈ (ofTokens name' ⟨front, endLine⟩).errors, error.atEnd = true) ∧
    ∀ (fuel : Nat) (console : Console) (line : String) (endLine : Nat),
      console.leaves line = false →
      TokenList.ofText ("\n".intercalate (console.pending ++ [line])) = .ok ⟨front, endLine⟩ →
      TakesUp fuel console line := by
  obtain ⟨cut, hcut⟩ := hfront
  have hends (name' : Option String) (endLine : Nat) :
      ∀ error ∈ (ofTokens name' ⟨front, endLine⟩).errors, error.atEnd = true := by
    obtain ⟨-, hwhole'⟩ := ofTokens_file hwhole name'
    intro error herror
    have hsplit : (ofTokens name' ⟨front ++ cut, tokens.endLine⟩).errors = [] := hcut ▸ hwhole'
    exact atEnd_of_mem_errors hsplit herror
  constructor
  · intro name' endLine
    by_cases hnone : (ofTokens name' ⟨front, endLine⟩).errors = []
    · exact .inl hnone
    · exact .inr ⟨hnone, hends name' endLine⟩
  · intro fuel console line endLine hstays htokens
    exact takesUp_of_atEnd hstays htokens (hends file endLine)

/-- The tokens of `while (a) { if (b) print c; }`. -/
def loopWithBranch : List Token :=
  [⟨.whileWord, "while", 1⟩, ⟨.openParen, "(", 1⟩, ⟨.name, "a", 1⟩, ⟨.closeParen, ")", 1⟩,
    ⟨.openBrace, "\x7b", 1⟩, ⟨.ifWord, "if", 1⟩, ⟨.openParen, "(", 1⟩, ⟨.name, "b", 1⟩,
    ⟨.closeParen, ")", 1⟩, ⟨.printWord, "print", 1⟩, ⟨.name, "c", 1⟩, ⟨.semicolon, ";", 1⟩,
    ⟨.closeBrace, "\x7d", 1⟩]

/-- Typing stops between a condition in a block and the statement that it governs. -/
theorem errors_of_isPrefix_loop :
    (ofTokens none ⟨loopWithBranch, 1⟩).errors = [] ∧
    (ofTokens file ⟨loopWithBranch.take 9, 1⟩).errors ≠ [] ∧
    (∀ error ∈ (ofTokens file ⟨loopWithBranch.take 9, 1⟩).errors, error.atEnd = true) ∧
    TakesUp 9 (start .standard false) "while (a) \x7b if (b)" := by
  have hwhole : (ofTokens none ⟨loopWithBranch, 1⟩).errors = [] := by decide
  have htokens : TokenList.ofText ("\n".intercalate ((start .standard false).pending ++
      ["while (a) \x7b if (b)"])) = .ok ⟨loopWithBranch.take 9, 1⟩ := by decide +kernel
  have hbroken : (ofTokens file ⟨loopWithBranch.take 9, 1⟩).errors ≠ [] := by decide
  obtain ⟨hends, htakes⟩ := errors_of_isPrefix hwhole (loopWithBranch.take_prefix 9)
  refine ⟨hwhole, hbroken, ?_, htakes 9 (start .standard false) _ 1 (by decide +kernel) htokens⟩
  rcases hends file 1 with hnone | ⟨-, hall⟩
  · exact absurd hnone hbroken
  · exact hall

/-! ## Line after line -/

/-- Typing the lines writes the exchanges and nothing else. It prints the given lines, and leaves
the given variables and no line that waits. -/
structure Types (fuel : Nat) (console : Console) (lines : List String) (vars : Variables)
    (printed : List String) (exchanges : List Exchange) : Prop where
  play_eq : console.play fuel lines =
    some (⟨String.join (exchanges.map Exchange.out), ""⟩,
      some ⟨{ console.session with vars }, [], console.debug⟩)
  length_eq : exchanges.length = lines.length
  printed_eq : exchanges.flatMap Exchange.printed = printed
  prompt_mem : ∀ exchange ∈ exchanges, exchange.prompt ∈ [">>> ", "... "]
  dump_eq : console.debug = false → ∀ exchange ∈ exchanges, exchange.dump = ""

/-- There are two prompts. -/
theorem prompt_mem (console : Console) : console.prompt ∈ [">>> ", "... "] := by
  rw [prompt]
  split <;> simp

/-- Without a line to type nothing is written. -/
theorem Types.nil (console : Console) (h : console.pending = []) :
    Types fuel console [] console.session.vars [] [] := by
  obtain ⟨session, pending, debug⟩ := console
  subst h
  exact ⟨rfl, rfl, rfl, by simp, by simp⟩

/-- One more line in front. -/
theorem Types.cons {console : Console} {session : Session} {rest : List String} {dump : String}
    {printed printed' : List String} {exchanges : List Exchange}
    (hfeed : console.feed fuel line =
      some (⟨dump ++ String.join (printed.map (· ++ "\n")), ""⟩,
        some ⟨session, pending, console.debug⟩))
    (hfile : session.file = console.session.file) (hroom : session.room = console.session.room)
    (hdump : console.debug = false → dump = "")
    (hrest : Types fuel ⟨session, pending, console.debug⟩ rest vars printed' exchanges) :
    Types fuel console (line :: rest) vars (printed ++ printed')
      (⟨console.prompt, dump, printed⟩ :: exchanges) where
  play_eq := by
    rw [play, hfeed, Option.bind_eq_bind, Option.bind_some]
    dsimp only
    rw [hrest.play_eq]
    simp [Transcript.ofOut, Exchange.out, hfile, hroom, String.append_assoc]
  length_eq := by simp [hrest.length_eq]
  printed_eq := by simp [hrest.printed_eq]
  prompt_mem := by
    rintro exchange (_ | ⟨_, hexchange⟩)
    · exact console.prompt_mem
    · exact hrest.prompt_mem exchange hexchange
  dump_eq := by
    rintro hdebug exchange (_ | ⟨_, hexchange⟩)
    · exact hdump hdebug
    · exact hrest.dump_eq hdebug exchange hexchange

/-- A line with which the text runs to its end can be typed in front of lines that can be typed from
there. -/
theorem exists_types_cons_of_runsTo {console : Console} {rest : List String}
    {middle later : Machine} (hline : Text.trimBlank line ∉ ["exit", "quit"])
    (hruns : RunsTo fuel console.session.room console.session.vars
      ("\n".intercalate (console.pending ++ [line])) middle)
    (halike : later.Alike middle.printed.toList machine)
    (hrest : ∃ exchanges, Types fuel
      ⟨{ console.session with vars := middle.vars }, [], console.debug⟩ rest later.vars
      later.printed.toList exchanges) :
    ∃ exchanges, Types fuel console (line :: rest) machine.vars machine.printed.toList
      exchanges := by
  obtain ⟨dump, hdump, hfeed⟩ := feed_of_runsTo hline hruns
  obtain ⟨exchanges, htypes⟩ := hrest
  rw [halike.vars_eq, halike.printed_eq]
  exact ⟨_, .cons hfeed rfl rfl hdump htypes⟩

/-- A line with which the text waits can be typed in front of lines that can be typed from there. -/
theorem exists_types_cons_of_waits {console : Console} {rest printed : List String}
    (hline : Text.trimBlank line ∉ ["exit", "quit"])
    (hwaits : Waits ("\n".intercalate (console.pending ++ [line])))
    (hrest : ∃ exchanges, Types fuel { console with pending := console.pending ++ [line] } rest
      vars printed exchanges) :
    ∃ exchanges, Types fuel console (line :: rest) vars printed exchanges := by
  have hfeed : console.feed fuel line =
      some (⟨"" ++ String.join (([] : List String).map (· ++ "\n")), ""⟩,
        some ⟨console.session, console.pending ++ [line], console.debug⟩) :=
    feed_of_waits hline hwaits
  obtain ⟨exchanges, htypes⟩ := hrest
  exact ⟨_, .cons hfeed rfl rfl (fun _ => rfl) htypes⟩

/-- Lines that complete a text that runs to its end can be typed, one after the other. -/
theorem exists_types {rest : List String} (hleaves : ∀ line ∈ rest,
      Text.trimBlank line ∉ ["exit", "quit"])
    (helse : ∀ line ∈ rest, TokenList.NoElseFirst line) {console : Console}
    (hpending : console.pending ≠ [] → Waits ("\n".intercalate console.pending))
    (hruns : RunsTo fuel console.session.room console.session.vars
      ("\n".intercalate (console.pending ++ rest)) machine) :
    ∃ exchanges, Types fuel console rest machine.vars machine.printed.toList exchanges := by
  -- The invariant: what waits, with the lines still to be typed, is a text that runs to its end.
  induction rest generalizing console machine with
  | nil =>
    rw [List.append_nil] at hruns
    by_cases hnone : console.pending = []
    · rw [hnone, String.intercalate_nil] at hruns
      rw [runsTo_empty_iff.mp hruns]
      exact ⟨[], .nil console hnone⟩
    · exact absurd hruns (hpending hnone).not_runsTo
  | cons line rest ih =>
    have hline := hleaves line (by simp)
    have hleaves' : ∀ other ∈ rest, Text.trimBlank other ∉ ["exit", "quit"] :=
      fun other hother => hleaves other (by simp [hother])
    have helse' : ∀ other ∈ rest, TokenList.NoElseFirst other :=
      fun other hother => helse other (by simp [hother])
    rw [List.append_cons] at hruns
    by_cases hlast : rest = []
    · subst hlast
      rw [List.append_nil] at hruns
      have hnothing : Machine.Alike machine.printed.toList ⟨machine.vars, #[]⟩ machine :=
        ⟨rfl, by simp⟩
      exact exists_types_cons_of_runsTo hline hruns hnothing ⟨[], .nil _ rfl⟩
    · have hsplit := String.intercalate_append_of_ne_nil (s := "\n")
        (List.concat_ne_nil line console.pending) hlast
      obtain hwaits | ⟨middle, later, hmiddle, hlater, halike⟩ :=
        (hsplit ▸ hruns).cut (TokenList.noElseFirst_intercalate helse')
      · exact exists_types_cons_of_waits hline hwaits
          (ih hleaves' helse' (fun _ => hwaits) hruns)
      · exact exists_types_cons_of_runsTo hline hmiddle halike
          (ih hleaves' helse' (fun h => absurd rfl h) hlater)

/-- A program that runs to its end without a report can as well be typed line by line: the console
prints the same lines, ends with the same variables, reports nothing, and no line waits. Between
the printed lines stand only the prompts and, if it is asked for, the dumps. -/
theorem play_lines_of_runText {lines : List String} {name name' : Option String} {dumps : Bool}
    {run : Run}
    (hrun : (Session.fresh room name).runText fuel name' ("\n".intercalate lines) dumps = some run)
    (hok : run.ok = true) (helse : ∀ line ∈ lines, TokenList.NoElseFirst line)
    (hleaves : ∀ line ∈ lines, Text.trimBlank line ∉ ["exit", "quit"]) (debug : Bool) :
    ∃ (exchanges : List Exchange) (console : Console),
      (start room debug).play fuel lines =
        some (⟨String.join (exchanges.map Exchange.out), ""⟩, some console) ∧
      console.session.vars = run.session.vars ∧ console.pending = [] ∧
      exchanges.flatMap Exchange.printed = run.printed ∧ exchanges.length = lines.length ∧
      (∀ exchange ∈ exchanges, exchange.prompt ∈ [">>> ", "... "]) ∧
      (debug = false → ∀ exchange ∈ exchanges, exchange.dump = "") := by
  obtain ⟨tokens, machine, htokens, herrors, hout, hsession, hprinted⟩ :=
    Session.exists_of_runText_eq_some hrun ((Session.ok_iff_of_runText hrun).mp hok)
  obtain ⟨hstatements, herrors'⟩ := ofTokens_file herrors file
  rw [← hstatements] at hout
  have hruns : RunsTo fuel room (start room debug).session.vars ("\n".intercalate lines)
      machine :=
    ⟨tokens, htokens, herrors', hout⟩
  have hfresh : (start room debug).pending ≠ [] →
      Waits ("\n".intercalate (start room debug).pending) := fun h => absurd rfl h
  obtain ⟨exchanges, htypes⟩ := exists_types hleaves helse hfresh hruns
  refine ⟨exchanges, _, htypes.play_eq, ?_, rfl, ?_, htypes.length_eq, htypes.prompt_mem,
    htypes.dump_eq⟩
  · rw [hsession]
  · rw [hprinted, htypes.printed_eq]

/-- A declaration, and a statement broken over two lines that uses it. -/
theorem play_lines_of_runText_broken :
    (Session.fresh .standard none).runText 9 none ("\n".intercalate ["var x;", "print", "x;"])
        false = some ⟨Session.declaredX, "", ["null"], [], true⟩ ∧
    ∃ (exchanges : List Exchange) (console : Console),
      (start .standard false).play 9 ["var x;", "print", "x;"] =
        some (⟨String.join (exchanges.map Exchange.out), ""⟩, some console) ∧
      console.session.vars = Session.declaredX.vars ∧ console.pending = [] ∧
      exchanges.flatMap Exchange.printed = ["null"] := by
  have htokens : TokenList.ofText ("\n".intercalate ["var x;", "print", "x;"]) =
      .ok ⟨[⟨.varWord, "var", 1⟩, ⟨.name, "x", 1⟩, ⟨.semicolon, ";", 1⟩, ⟨.printWord, "print", 2⟩,
        ⟨.name, "x", 3⟩, ⟨.semicolon, ";", 3⟩], 3⟩ := by decide +kernel
  have hrun : (Session.fresh .standard none).runText 9 none
      ("\n".intercalate ["var x;", "print", "x;"]) false =
        some ⟨Session.declaredX, "", ["null"], [], true⟩ := by
    rw [Session.runText_of_ofText htokens]
    rfl
  have helse : ∀ line ∈ ["var x;", "print", "x;"], TokenList.NoElseFirst line := by
    have hfirst : TokenList.ofText "var x;" =
        .ok ⟨[⟨.varWord, "var", 1⟩, ⟨.name, "x", 1⟩, ⟨.semicolon, ";", 1⟩], 1⟩ := by
      decide +kernel
    have hsecond : TokenList.ofText "print" = .ok ⟨[⟨.printWord, "print", 1⟩], 1⟩ := by
      decide +kernel
    have hthird : TokenList.ofText "x;" =
        .ok ⟨[⟨.name, "x", 1⟩, ⟨.semicolon, ";", 1⟩], 1⟩ := by decide +kernel
    simp [TokenList.NoElseFirst, hfirst, hsecond, hthird]
  obtain ⟨exchanges, console, hplay, hvars, hpending, hprinted, -⟩ :=
    play_lines_of_runText hrun rfl helse (by decide +kernel) false
  exact ⟨hrun, exchanges, console, hplay, hvars, hpending, hprinted⟩

end Console

end ScriptKit
