import ScriptKit.Proofs.ErrorOrder
import ScriptKit.Proofs.FailureOrigin
import ScriptKit.Proofs.Lexemes

/-!
# Messages on one line

Each message about a program that was read from a text stands on one line, if the name of the text
does. The words of messages have no line feed, and what they quote has none either: a stray
character is no line feed, and lexemes have none, of which the names of variables are some.
-/

set_option autoImplicit false

namespace ScriptKit

/-- There is no line feed in the text. -/
def OneLine (text : String) : Prop := '\n' ∉ text.toList

instance (text : String) : Decidable (OneLine text) :=
  inferInstanceAs (Decidable ('\n' ∉ text.toList))

/-- There is no line feed in two texts together if there is none in either. -/
theorem oneLine_append {first second : String} :
    OneLine (first ++ second) ↔ OneLine first ∧ OneLine second := by
  simp [OneLine, String.toList_append]

/-- There is no line feed in the digits of a natural number. -/
theorem oneLine_toString_nat (n : Nat) : OneLine (toString n) := by
  intro hmem
  rw [Nat.toString_eq_repr, Nat.toList_repr] at hmem
  exact absurd (Nat.isDigit_of_mem_toDigits (by decide) (by decide) hmem) (by decide)

/-- There is no line feed in the digits of an integer. -/
theorem oneLine_toString_int (n : Int) : OneLine (toString n) := by
  cases n with
  | ofNat n => exact oneLine_toString_nat n
  | negSucc n => exact oneLine_append.mpr ⟨by decide, oneLine_toString_nat (n + 1)⟩

/-- A place is told on one line. -/
theorem oneLine_located {text : String} (htext : OneLine text) (line : Option Int)
    {file : Option String} (hfile : ∀ name ∈ file, OneLine name) :
    OneLine (located text line file) := by
  refine oneLine_append.mpr ⟨oneLine_append.mpr ⟨htext, ?_⟩, ?_⟩
  · cases line with
    | none => decide
    | some n => exact oneLine_append.mpr ⟨by decide, oneLine_toString_int n⟩
  · cases file with
    | none => decide
    | some name => exact oneLine_append.mpr ⟨by decide, hfile name rfl⟩

/-- The names of faults have no line feed. -/
theorem Fault.oneLine_label (fault : Fault) : OneLine fault.label := by
  cases fault with
  | strayCharacter text => exact (by decide : OneLine "LexError")
  | malformed message atEnd => exact (by decide : OneLine "ParseError")
  | runtime fault =>
    have hall : ∀ label ∈ ["ScriptRuntimeError", "UndefinedVariableException",
        "OperandTypeException", "DivisionByZeroException", "UnknownOpException",
        "NestingDepthException"], OneLine label := by decide
    apply hall
    cases fault <;> simp [Fault.label, RuntimeFault.label]

namespace Report

/-- The entry of the report without the break at its end. -/
def headline (report : Report) : String := report.fault.label ++ ": " ++ report.message

/-- The entry of a report is its headline and a break. -/
theorem entry_eq (report : Report) : report.entry = report.headline ++ "\n" := rfl

/-- The headline of a report is one line if its text and the name of its file are. -/
theorem oneLine_headline {report : Report} (htext : OneLine report.fault.text)
    (hfile : ∀ name ∈ report.file, OneLine name) : OneLine report.headline := by
  refine oneLine_append.mpr ⟨oneLine_append.mpr ⟨report.fault.oneLine_label, by decide⟩, ?_⟩
  exact oneLine_located htext report.line hfile

end Report

/-! ## What messages quote -/

/-- The text of a token has no line feed. -/
theorem TokenList.oneLine_text {text : String} {tokens : TokenList} (h : ofText text = .ok tokens)
    {token : Token} (hmem : token ∈ tokens.tokens) : OneLine token.text := by
  obtain ⟨s, -, rfl⟩ := exists_segmentation_of_ofText h
  obtain ⟨i, hi⟩ := List.mem_iff_getElem?.mp hmem
  rw [Segmentation.tokens, Segment.getElem?_tokensFrom, Option.map_eq_some_iff] at hi
  obtain ⟨segment, -, rfl⟩ := hi
  simpa [OneLine] using segment.not_mem_lexeme

/-- A complaint in words of the grammar is one line. -/
theorem Complaint.oneLine_text {complaint : Complaint}
    (h : ∀ text, complaint ≠ .described text) : OneLine complaint.text := by
  cases complaint with
  | described text => exact absurd rfl (h text)
  | expectedKind kind => exact oneLine_append.mpr ⟨by decide, by cases kind <;> decide⟩
  | _ => decide

/-- The text of a syntax error is one line if the lexeme that it quotes is. -/
theorem SyntaxError.oneLine_text {error : SyntaxError} (h : error.Raised)
    (hfound : ∀ token ∈ error.found, OneLine token.text) : OneLine error.text := by
  refine oneLine_append.mpr ⟨oneLine_append.mpr ⟨?_, by decide⟩, ?_⟩
  · exact Complaint.oneLine_text h.ne_described
  · cases hcase : error.found with
    | none => decide
    | some token =>
      have htoken := hfound token hcase
      exact oneLine_append.mpr ⟨oneLine_append.mpr ⟨by decide, htoken⟩, by decide⟩

/-- A failure that comes from tokens tells of their texts. -/
theorem Failure.ComesFrom.oneLine_text {tokens : List Token} {failure : Failure}
    (h : failure.ComesFrom tokens) (htokens : ∀ token ∈ tokens, OneLine token.text) :
    OneLine failure.fault.text := by
  cases h with
  | undefinedVariable hmem _ =>
    exact oneLine_append.mpr ⟨oneLine_append.mpr ⟨by decide, htokens _ hmem⟩, by decide⟩
  | operandType hmem _ =>
    exact oneLine_append.mpr ⟨oneLine_append.mpr ⟨by decide, htokens _ hmem⟩, by decide⟩
  | @divisionByZero token hmem _ =>
    have htext : (RuntimeFault.divisionByZero token.text).text =
        if token.text = "%" then "Modulo by zero" else "Division by zero" := rfl
    dsimp only
    rw [htext]
    by_cases hmodulo : token.text = "%"
    · rw [if_pos hmodulo]
      decide
    · rw [if_neg hmodulo]
      decide
  | tooDeep => decide

/-! ## Reports -/

section Reports

variable {file : Option String} {text : String}

/-- The report on a stray character is one line if the name of the file is. -/
theorem StrayCharacter.oneLine_headline {stray : StrayCharacter}
    (h : TokenList.ofText text = .error stray) (hfile : ∀ name ∈ file, OneLine name) :
    OneLine (stray.report file).headline := by
  obtain ⟨s, rest, -, -, hforeign⟩ := TokenList.exists_segmentation_of_stray h
  refine Report.oneLine_headline ?_ hfile
  refine oneLine_append.mpr ⟨oneLine_append.mpr ⟨by decide, ?_⟩, by decide⟩
  have hchar := (Token.ne_of_isForeign hforeign).1
  have htext : OneLine (String.singleton stray.char) := by simpa [OneLine] using hchar.symm
  exact htext

/-- The errors of a program that was read from a text are told on one line each. -/
theorem Program.oneLine_headline {program : Program} (h : Program.ofText file text = .ok program)
    (hfile : ∀ name ∈ file, OneLine name) {error : SyntaxError} (hmem : error ∈ program.errors) :
    OneLine (error.report file).headline := by
  obtain ⟨tokens, htokens, rfl⟩ := exists_tokens_of_ofText h
  refine Report.oneLine_headline ?_ hfile
  refine SyntaxError.oneLine_text (raised_of_mem_errors hmem) fun token hfound => ?_
  have hlocated := (orderly_program file tokens).located error hmem
  have hplace := List.mem_of_getElem? hlocated.found_eq
  rw [hfound] at hplace
  exact TokenList.oneLine_text htokens (by simpa [TokenList.withEnd] using hplace)

end Reports

end ScriptKit
