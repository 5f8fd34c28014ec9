import ScriptKit.Proofs.Sequence

/-!
# Texts that are laid out differently

Two texts with the same tokens differ in blanks and line breaks only, and so their tokens stand on
different lines. Nothing else comes of it. Their trees are the same but for the lines, and running
them prints the same, leaves the same variables and reports the same but for the lines.

The grammar and the machine are known to go the same way on corresponding lines, for any relation
between lines. Here the relation says only that both lines are known or neither is. What is left is
to say what a message is without the number of its line, and that the number is all that differs.
-/

set_option autoImplicit false

namespace ScriptKit

/-! ## Messages without the numbers of lines -/

namespace Text

/-- What stands in front of the number of a line. -/
def lineMark : List Char := [' ', 'o', 'n', ' ', 'l', 'i', 'n', 'e', ' ']

/-- Put a character in front of those that were kept before it, unless it is a digit of the number
of a line. A digit that is dropped leaves the mark in front for the next one. -/
def keepChar (kept : List Char) (c : Char) : List Char :=
  if c.isDigit && lineMark.reverse.isPrefixOf kept then kept else c :: kept

/-- The text without the digits of the numbers of lines. -/
def withoutLineNumbers (text : String) : String :=
  String.ofList (text.toList.foldl keepChar []).reverse

/-- Texts that are the same without the numbers of lines, whatever stands in front of them. -/
def SameButLines (text text' : String) : Prop :=
  ∀ kept, text'.toList.foldl keepChar kept = text.toList.foldl keepChar kept

/-- A text is the same as itself. -/
theorem SameButLines.refl (text : String) : SameButLines text text := fun _ => rfl

/-- Texts that are the same but for the numbers of lines can be put together. -/
theorem SameButLines.append {first first' second second' : String} (h : SameButLines first first')
    (h' : SameButLines second second') : SameButLines (first ++ second) (first' ++ second') := by
  intro kept
  rw [String.toList_append, String.toList_append, List.foldl_append, List.foldl_append, h, h']

/-- Such texts are equal once the numbers of lines are taken out. -/
theorem SameButLines.withoutLineNumbers_eq {text text' : String} (h : SameButLines text text') :
    withoutLineNumbers text' = withoutLineNumbers text := by
  unfold withoutLineNumbers
  rw [h]

/-- Characters that are no digits are kept. -/
theorem foldl_keepChar_of_not_isDigit {text : List Char} (h : ∀ c ∈ text, c.isDigit = false)
    (kept : List Char) : text.foldl keepChar kept = text.reverse ++ kept := by
  induction text generalizing kept with
  | nil => rfl
  | cons c rest ih =>
    rw [List.forall_mem_cons] at h
    have hkept : keepChar kept c = c :: kept := by simp [keepChar, h.1]
    rw [List.foldl_cons, hkept, ih h.2, List.reverse_cons, List.append_assoc]
    rfl

/-- Digits behind the mark are dropped. -/
theorem foldl_keepChar_of_isDigit {digits kept : List Char} (h : ∀ c ∈ digits, c.isDigit = true)
    (hmark : lineMark.reverse.isPrefixOf kept = true) : digits.foldl keepChar kept = kept := by
  induction digits with
  | nil => rfl
  | cons c rest ih =>
    rw [List.forall_mem_cons] at h
    have hkept : keepChar kept c = kept := by simp [keepChar, h.1, hmark]
    rw [List.foldl_cons, hkept, ih h.2]

/-- The number of a line is dropped, whatever it is. -/
theorem foldl_keepChar_line (number : Nat) (kept : List Char) :
    (" on line " ++ toString number).toList.foldl keepChar kept = lineMark.reverse ++ kept := by
  have hdigits : ∀ c ∈ (toString number).toList, c.isDigit = true := by
    intro c hmem
    rw [Nat.toString_eq_repr, Nat.toList_repr] at hmem
    exact Nat.isDigit_of_mem_toDigits (by decide) (by decide) hmem
  have hmark : lineMark.reverse.isPrefixOf (lineMark.reverse ++ kept) = true :=
    List.isPrefixOf_iff_prefix.mpr (List.prefix_append _ _)
  have hletters : ∀ c ∈ lineMark, c.isDigit = false := by simp [lineMark]
  have hword : " on line ".toList = lineMark := by decide +kernel
  rw [String.toList_append, hword, List.foldl_append, foldl_keepChar_of_not_isDigit hletters,
    foldl_keepChar_of_isDigit hdigits hmark]

example :
    withoutLineNumbers "Modulo by zero on line 12 in a7" = "Modulo by zero on line  in a7" := by
  decide +kernel

end Text

/-- Both lines are known, or neither is. Lines that are known are counted. -/
inductive BothKnown : SourceLine → SourceLine → Prop where
  | none : BothKnown none none
  | some (line line' : Nat) : BothKnown (some (line : Int)) (some (line' : Int))

/-- The same text about corresponding lines. -/
theorem BothKnown.located {line line' : SourceLine} (h : BothKnown line line') (text : String)
    (file : Option String) :
    Text.SameButLines (ScriptKit.located text line file) (ScriptKit.located text line' file) := by
  unfold ScriptKit.located
  refine .append (.append (.refl text) ?_) (.refl _)
  cases h with
  | none => exact .refl _
  | some line line' =>
    intro kept
    exact (Text.foldl_keepChar_line line' kept).trans (Text.foldl_keepChar_line line kept).symm

namespace Report.Alike

variable {report report' : Report} (h : report.Alike BothKnown report')

include h

/-- Alike reports have the same message, but for the number of the line. -/
theorem message : Text.SameButLines report.message report'.message := by
  unfold Report.message
  rw [h.fault_eq, h.file_eq]
  exact h.line.located _ _

/-- Alike reports are written in the same way, but for the number of the line. -/
theorem entry : Text.SameButLines report.entry report'.entry := by
  unfold Report.entry
  rw [h.fault_eq]
  exact .append (.append (.refl _) h.message) (.refl _)

end Report.Alike

/-- Reports in a row, each the same but for its line, make texts that are the same but for the
lines. -/
theorem sameButLines_join_entries {reports reports' : List Report}
    (h : List.Forall₂ (Report.Alike BothKnown) reports reports') :
    Text.SameButLines (String.join (reports.map Report.entry))
      (String.join (reports'.map Report.entry)) := by
  induction h with
  | nil => exact .refl _
  | cons hreport _ ih =>
    rw [List.map_cons, List.map_cons, String.join_cons, String.join_cons]
    exact hreport.entry.append ih

/-- What is the same for corresponding items is the same for corresponding lists of them. -/
theorem map_eq_of_forall₂ {α β : Type} {rel : α → α → Prop} {view : α → β}
    (hview : ∀ a a', rel a a' → view a' = view a) {items items' : List α}
    (h : List.Forall₂ rel items items') : items'.map view = items.map view := by
  induction h with
  | nil => rfl
  | cons hitem _ ih => rw [List.map_cons, List.map_cons, hview _ _ hitem, ih]

/-! ## Trees without lines -/

namespace Node

mutual

/-- The tree without its lines, and without the numbers of lines in the messages of markers. -/
@[simp] def withoutLines : Node → Node
  | literal value _ => literal value none
  | reference name _ => reference name none
  | binary op lhs rhs _ => binary op lhs.withoutLines rhs.withoutLines none
  | assign name value _ => assign name value.withoutLines none
  | evaluate expression _ => evaluate expression.withoutLines none
  | declare name _ => declare name none
  | define name initial _ => define name initial.withoutLines none
  | print expression _ => print expression.withoutLines none
  | ifThen condition thenBranch _ => ifThen condition.withoutLines thenBranch.withoutLines none
  | ifElse condition thenBranch elseBranch _ =>
    ifElse condition.withoutLines thenBranch.withoutLines elseBranch.withoutLines none
  | loop condition body _ => loop condition.withoutLines body.withoutLines none
  | block statements _ => block (withoutLinesOf statements) none
  | skipped message _ => skipped (Text.withoutLineNumbers message) none
  | unknown tag _ => unknown tag none

/-- The trees without their lines. -/
@[simp] def withoutLinesOf : List Node → List Node
  | [] => []
  | first :: rest => first.withoutLines :: withoutLinesOf rest

end

/-- The lines are taken from one tree after the other. -/
theorem withoutLinesOf_eq_map (nodes : List Node) :
    withoutLinesOf nodes = nodes.map withoutLines := by
  induction nodes with
  | nil => rfl
  | cons first rest ih => rw [withoutLinesOf, ih, List.map_cons]

/-- Corresponding trees are the same without their lines. -/
theorem Alike.withoutLines_eq {node node' : Node} (h : node.Alike BothKnown Eq node') :
    node'.withoutLines = node.withoutLines := by
  induction h with
  | literal | reference | declare => rfl
  | binary _ _ _ _ ihlhs ihrhs => rw [withoutLines, withoutLines, ihlhs, ihrhs]
  | assign _ _ _ ih | define _ _ _ ih | evaluate _ _ ih | print _ _ ih =>
    rw [withoutLines, withoutLines, ih]
  | ifThen _ _ _ ihcondition ihthen => rw [withoutLines, withoutLines, ihcondition, ihthen]
  | ifElse _ _ _ _ ihcondition ihthen ihelse =>
    rw [withoutLines, withoutLines, ihcondition, ihthen, ihelse]
  | loop _ _ _ ihcondition ihbody => rw [withoutLines, withoutLines, ihcondition, ihbody]
  | block hlength _ _ ih =>
    rw [withoutLines, withoutLines, withoutLinesOf_eq_map, withoutLinesOf_eq_map]
    congr 1
    apply List.ext_getElem
    · rw [List.length_map, List.length_map, hlength]
    · intro i h h'
      rw [List.getElem_map, List.getElem_map]
      exact ih i _ _
  | @skipped file file' _ _ _ hfile herror =>
    rw [withoutLines, withoutLines, ← hfile, (herror.report file).message.withoutLineNumbers_eq]

/-- Alike trees are equal without their lines. -/
theorem withoutLinesOf_eq_of_forall₂ {nodes nodes' : List Node}
    (h : List.Forall₂ (Alike BothKnown Eq) nodes nodes') :
    withoutLinesOf nodes' = withoutLinesOf nodes := by
  rw [withoutLinesOf_eq_map, withoutLinesOf_eq_map]
  exact map_eq_of_forall₂ (fun _ _ hnode => hnode.withoutLines_eq) h

end Node

/-! ## The same tokens on other lines -/

/-- The kinds and texts of the tokens, in order. What a numeral denotes follows from its text. -/
def TokenList.spelling (tokens : TokenList) : List (Token.Kind × String) :=
  tokens.tokens.map fun token => (token.kind, token.text)

namespace Program

variable {tokens tokens' : TokenList}

/-- Lists of tokens that are spelled the same are read alike. -/
theorem alike_ofTokens (h : tokens'.spelling = tokens.spelling) (file : Option String) :
    List.Forall₂ (Node.Alike BothKnown Eq) (ofTokens file tokens).statements
        (ofTokens file tokens').statements ∧
      List.Forall₂ (SyntaxError.Alike BothKnown 0) (ofTokens file tokens).errors
        (ofTokens file tokens').errors := by
  have hahead : List.Forall₂ (Token.Alike BothKnown) tokens.tokens tokens'.tokens := by
    unfold TokenList.spelling at h
    rw [← List.forall₂_eq_eq_eq, List.forall₂_map_left_iff, List.forall₂_map_right_iff] at h
    refine h.flip.imp fun token token' hsame => ?_
    rw [Prod.mk.injEq] at hsame
    exact ⟨hsame.1, hsame.2, .some _ _⟩
  have hstart : (Cursor.start file tokens).Alike BothKnown Eq 0 [] (Cursor.start file tokens') :=
    ⟨rfl, rfl, hahead, .some _ _, [], rfl, .nil⟩
  obtain ⟨hnodes, hend⟩ := Grammar.alike_program hstart
  obtain ⟨later, hlater, herrors⟩ := hend.errors
  rw [List.nil_append] at hlater
  rw [statements_ofTokens, statements_ofTokens, errors_ofTokens, errors_ofTokens, hlater]
  exact ⟨hnodes, herrors⟩

end Program

/-- Runs that leave the same variables behind, print the same lines and report the same faults, on
corresponding lines. -/
structure Run.Alike (lines : SourceLine → SourceLine → Prop) (run run' : Run) : Prop where
  session_eq : run'.session = run.session
  printed_eq : run'.printed = run.printed
  reports : List.Forall₂ (Report.Alike lines) run.reports run'.reports

namespace Session

open Program

variable {text text' : String} {tokens tokens' : TokenList}

/-- With some fuel, neither of two texts that are spelled the same comes to its end, or both do,
with runs that are alike. -/
theorem rel_runText (h : TokenList.ofText text = .ok tokens)
    (h' : TokenList.ofText text' = .ok tokens') (hsame : tokens'.spelling = tokens.spelling)
    (session : Session) (fuel : Nat) (file : Option String) (debug : Bool) :
    Option.Rel (Run.Alike BothKnown) (session.runText fuel file text debug)
      (session.runText fuel file text' debug) := by
  obtain ⟨hnodes, herrors⟩ := alike_ofTokens hsame file
  have hreports : List.Forall₂ (Report.Alike BothKnown)
      ((ofTokens file tokens).errors.map (·.report file))
      ((ofTokens file tokens').errors.map (·.report file)) := by
    rw [List.forall₂_map_left_iff, List.forall₂_map_right_iff]
    exact herrors.imp fun error error' herror => herror.report file
  have hstart : Machine.Alike [] ⟨session.vars, #[]⟩ ⟨session.vars, #[]⟩ := ⟨rfl, rfl⟩
  have hexec := alike_execAll BothKnown.none fuel session.room hnodes _ _ hstart
  rw [runText_of_ofText h, runText_of_ofText h']
  generalize Exec.outcome (Node.execAll fuel session.room (ofTokens file tokens).statements)
    ⟨session.vars, #[]⟩ = out at hexec
  generalize Exec.outcome (Node.execAll fuel session.room (ofTokens file tokens').statements)
    ⟨session.vars, #[]⟩ = out' at hexec
  cases hexec with
  | outOfFuel => exact .none
  | ok result hend =>
    refine .some ⟨by simp [hend.vars_eq], hend.printed_eq, ?_⟩
    exact List.rel_append hreports .nil
  | error hfailure hend =>
    refine .some ⟨by simp [hend.vars_eq], hend.printed_eq, ?_⟩
    exact List.rel_append hreports (.cons (hfailure.report session.file) .nil)

/-- It does not matter how a text is laid out. Two texts with tokens of the same kinds and texts
give trees that are the same without their lines, and as many errors, with messages that are the
same without the numbers of lines. In one session both run forever, or both end, with the same
verdict, the same output, the same variables and the same entries on the error stream without the
numbers of lines. -/
theorem runText_of_spelling_eq (h : TokenList.ofText text = .ok tokens)
    (h' : TokenList.ofText text' = .ok tokens') (hsame : tokens'.spelling = tokens.spelling)
    (file : Option String) :
    (∃ program program', Program.ofText file text = .ok program ∧
      Program.ofText file text' = .ok program' ∧
      Node.withoutLinesOf program'.statements = Node.withoutLinesOf program.statements ∧
      program'.errors.length = program.errors.length ∧
      program'.errors.map (fun error => Text.withoutLineNumbers (error.report file).message) =
        program.errors.map fun error => Text.withoutLineNumbers (error.report file).message) ∧
    ∀ session : Session,
      ((∀ fuel, session.runText fuel file text false = none) ∧
        ∀ fuel, session.runText fuel file text' false = none) ∨
      ∃ (enough : Nat) (run run' : Run),
        (∀ fuel ≥ enough, session.runText fuel file text false = some run ∧
          session.runText fuel file text' false = some run') ∧
        run'.ok = run.ok ∧ run'.out = run.out ∧ run'.session = run.session ∧
        run'.reports.map (fun report => Text.withoutLineNumbers report.entry) =
          run.reports.map (fun report => Text.withoutLineNumbers report.entry) ∧
        Text.withoutLineNumbers run'.err = Text.withoutLineNumbers run.err := by
  constructor
  · obtain ⟨hnodes, herrors⟩ := alike_ofTokens hsame file
    refine ⟨_, _, ofText_of_tokens file h, ofText_of_tokens file h',
      Node.withoutLinesOf_eq_of_forall₂ hnodes, herrors.length_eq.symm, ?_⟩
    apply map_eq_of_forall₂ _ herrors
    intro error error' herror
    exact (herror.report file).message.withoutLineNumbers_eq
  · intro session
    have hrel (fuel : Nat) := rel_runText h h' hsame session fuel file false
    obtain hforever | ⟨enough, run, run', hruns, halike⟩ :=
      forever_or_enough (fun hle => runText_mono hle) (fun hle => runText_mono hle) hrel
    · exact .inl hforever
    · have hrun := hruns enough le_rfl
      refine .inr ⟨enough, run, run', hruns, ?_, ?_, halike.session_eq, ?_, ?_⟩
      · -- As many reports, and so the same verdict.
        rw [Bool.eq_iff_iff, ok_iff_of_runText hrun.1, ok_iff_of_runText hrun.2,
          ← List.length_eq_zero_iff, ← List.length_eq_zero_iff, halike.reports.length_eq]
      · rw [Run.out, Run.out, dump_of_runText hrun.1, dump_of_runText hrun.2, halike.printed_eq]
      · apply map_eq_of_forall₂ _ halike.reports
        intro report report' hreport
        exact hreport.entry.withoutLineNumbers_eq
      · exact (sameButLines_join_entries halike.reports).withoutLineNumbers_eq

/-- The tokens of a text with a malformed line. -/
def unnamed : TokenList :=
  ⟨[⟨.varWord, "var", 1⟩, ⟨.semicolon, ";", 1⟩, ⟨.printWord, "print", 2⟩, ⟨.name, "x", 2⟩,
    ⟨.semicolon, ";", 2⟩], 2⟩

/-- The same tokens on other lines. -/
def unnamedBelow : TokenList :=
  ⟨[⟨.varWord, "var", 1⟩, ⟨.semicolon, ";", 2⟩, ⟨.printWord, "print", 4⟩, ⟨.name, "x", 4⟩,
    ⟨.semicolon, ";", 4⟩], 5⟩

/-- A malformed declaration and a variable that is not bound, with the breaks of lines in other
places. -/
theorem runText_of_spelling_eq_unnamed :
    TokenList.ofText "var ;\r\nprint x;" = .ok unnamed ∧
    TokenList.ofText "var\n;\n\n print\tx ;\n" = .ok unnamedBelow ∧
    unnamedBelow.spelling = unnamed.spelling ∧
    ∃ (enough : Nat) (run : Run),
      (∀ fuel ≥ enough,
        (fresh .standard none).runText fuel none "var\n;\n\n print\tx ;\n" false = some run) ∧
      run.ok = false ∧ Text.withoutLineNumbers run.err =
        "ParseError: Expected variable name after 'var', got ';' on line \n" ++
          "UndefinedVariableException: Undefined variable 'x' on line \n" := by
  have htokens : TokenList.ofText "var ;\r\nprint x;" = .ok unnamed := by decide +kernel
  have htokens' : TokenList.ofText "var\n;\n\n print\tx ;\n" = .ok unnamedBelow := by
    decide +kernel
  have hrun : (fresh .standard none).runText 1 none "var ;\r\nprint x;" false =
      some ⟨fresh .standard none, "", [],
        [⟨.malformed "Expected variable name after 'var', got ';'" false, some 1, none⟩,
          ⟨.runtime (.undefinedVariable "x"), some 2, none⟩], false⟩ := by
    rw [runText_of_ofText htokens]
    rfl
  refine ⟨htokens, htokens', rfl, ?_⟩
  obtain ⟨-, hsessions⟩ := runText_of_spelling_eq htokens htokens' rfl none
  obtain ⟨hforever, -⟩ | ⟨enough, run, run', hruns, hok, -, -, -, herr⟩ :=
    hsessions (fresh .standard none)
  · rw [hforever 1] at hrun
    cases hrun
  · have hmore := runText_mono (Nat.le_max_right enough 1) hrun
    rw [(hruns _ (Nat.le_max_left enough 1)).1, Option.some.injEq] at hmore
    subst hmore
    refine ⟨enough, run', fun fuel hle => (hruns fuel hle).2, hok, herr.trans ?_⟩
    decide +kernel

end Session

end ScriptKit
