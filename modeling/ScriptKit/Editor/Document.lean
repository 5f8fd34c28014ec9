import ScriptKit.Node.Listing
import ScriptKit.Program
import ScriptKit.Text.Lines

/-!
# What an editor shows of a text

The diagnostics of a text mark the lines with errors; the symbols of a text are the variables that
it declares.
-/

set_option autoImplicit false

namespace ScriptKit.Editor

/-- The beginning of a line, up to a length in characters. Lines are counted from zero. -/
structure Stretch where
  line : Int
  length : Nat
deriving DecidableEq, Repr

/-- A message about a line. -/
structure Diagnostic where
  range : Stretch
  message : String
deriving DecidableEq, Repr

/-- How severe all diagnostics are: they are errors. -/
def Diagnostic.severity : Nat := 1

/-- Who all diagnostics come from. -/
def Diagnostic.source : String := "quill"

/-- A declared variable. Lines are counted from zero. -/
structure Symbol where
  name : String
  uri : String
  line : Int
  detail : String
deriving DecidableEq, Repr

/-- What all symbols are: they are variables. -/
def Symbol.kind : Nat := 13

/-- The beginning of the symbol's line, as long as its name. -/
def Symbol.range (symbol : Symbol) : Stretch := ⟨symbol.line, symbol.name.length⟩

/-- All of a line; a line that is not among those of the text is empty. -/
def wholeLine (lines : List Text.Line) (line : Nat) : Stretch :=
  ⟨line, ((lines[line]?).map (·.content.length)).getD 0⟩

/-- The diagnostic for a report on a line, which is counted from one. -/
def diagnosticFor (lines : List Text.Line) (line : Nat) (report : Report) : Diagnostic :=
  ⟨wholeLine lines (line - 1), report.message⟩

/-- The diagnostics of a text: one for each syntax error, or one for a stray character. -/
def diagnostics (text : String) : List Diagnostic :=
  let file := some "<document>"
  let lines := Text.lines text
  match Program.ofText file text with
  | .error stray => [diagnosticFor lines stray.line (stray.report file)]
  | .ok program =>
    program.errors.map fun error => diagnosticFor lines error.line (error.report file)

/-- A declaration in a program. -/
structure Declaration where
  name : String
  initial : Option Node
  line : SourceLine

mutual

/-- The declarations in a statement, in the order in which they stand. -/
def declarationsIn : Node → List Declaration
  | .declare name line => [⟨name, none, line⟩]
  | .define name initial line => [⟨name, some initial, line⟩]
  | .block statements _ => declarationsOf statements
  | .ifThen _ thenBranch _ => declarationsIn thenBranch
  | .ifElse _ thenBranch elseBranch _ => declarationsIn thenBranch ++ declarationsIn elseBranch
  | .loop _ body _ => declarationsIn body
  | _ => []

/-- The declarations in statements, in the order in which they stand. -/
def declarationsOf : List Node → List Declaration
  | [] => []
  | first :: rest => declarationsIn first ++ declarationsOf rest

end

/-- How a declaration is shown. An initial value that is too deep for a listing is left out. -/
def Declaration.detail (room : Headroom) (declaration : Declaration) : String :=
  "var " ++ declaration.name ++
    match declaration.initial with
    | none => ""
    | some initial => " = " ++ (initial.listing? room 0).getD "..."

/-- The symbol of a declaration. -/
def Declaration.symbol (room : Headroom) (uri : String) (declaration : Declaration) : Symbol :=
  ⟨declaration.name, uri, declaration.line.getD 1 - 1, declaration.detail room⟩

/-- The symbols of a text: one for each declaration. A text with a stray character has none. -/
def symbols (room : Headroom) (uri text : String) : List Symbol :=
  match Program.ofText (some uri) text with
  | .error _ => []
  | .ok program => (declarationsOf program.statements).map (·.symbol room uri)

end ScriptKit.Editor
