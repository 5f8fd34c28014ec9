import ScriptKit.Number.Numeral

/-!
# Tokens

A program text is a sequence of tokens: numerals, names, five keywords and the marks. Each token
keeps the text it was cut from and the line on which it starts.
-/

set_option autoImplicit false

namespace ScriptKit

/-- The kinds of token. -/
inductive Token.Kind where
  | number
  | name
  | ifWord
  | elseWord
  | whileWord
  | varWord
  | printWord
  | equal
  | assign
  | openParen
  | closeParen
  | openBrace
  | closeBrace
  | semicolon
  | plus
  | minus
  | times
  | divide
  | modulo
  | less
  | greater
deriving DecidableEq, Repr

namespace Token.Kind

/-- All kinds of token. -/
def all : List Kind :=
  [.number, .name, .ifWord, .elseWord, .whileWord, .varWord, .printWord, .equal, .assign,
    .openParen, .closeParen, .openBrace, .closeBrace, .semicolon, .plus, .minus, .times, .divide,
    .modulo, .less, .greater]

/-- The name of a kind in messages and in token listings. -/
def label : Kind → String
  | number => "NUMBER"
  | name => "ID"
  | ifWord => "IF"
  | elseWord => "ELSE"
  | whileWord => "WHILE"
  | varWord => "VAR"
  | printWord => "PRINT"
  | equal => "EQ"
  | assign => "ASSIGN"
  | openParen => "LPAREN"
  | closeParen => "RPAREN"
  | openBrace => "LBRACE"
  | closeBrace => "RBRACE"
  | semicolon => "SEMICOLON"
  | plus => "PLUS"
  | minus => "MINUS"
  | times => "MUL"
  | divide => "DIV"
  | modulo => "MOD"
  | less => "LT"
  | greater => "GT"

/-- The kind with the given name. -/
def ofLabel? (text : String) : Option Kind := all.find? (·.label = text)

/-- The kind of a word: a keyword only if it is spelled exactly so, else a name. -/
def ofWord (word : String) : Kind :=
  if word = "if" then ifWord
  else if word = "else" then elseWord
  else if word = "while" then whileWord
  else if word = "var" then varWord
  else if word = "print" then printWord
  else name

/-- The kind of a token that is a single mark. -/
def ofMark? : Char → Option Kind
  | '=' => some assign
  | '(' => some openParen
  | ')' => some closeParen
  | '{' => some openBrace
  | '}' => some closeBrace
  | ';' => some semicolon
  | '+' => some plus
  | '-' => some minus
  | '*' => some times
  | '/' => some divide
  | '%' => some modulo
  | '<' => some less
  | '>' => some greater
  | _ => none

/-- Does a token of this kind begin a statement of its own? Recovery from an error stops in
front of such a token. -/
def startsStatement : Kind → Bool
  | ifWord | whileWord | varWord | printWord => true
  | _ => false

end Token.Kind

/-- A token: its kind, the text it was cut from and the line on which it starts. -/
structure Token where
  kind : Token.Kind
  text : String
  line : Nat
deriving DecidableEq, Repr

namespace Token

/-- The number that a numeral denotes; other tokens denote none. -/
def number? (token : Token) : Option Float :=
  match token.kind with
  | .number => some (Number.ofNumeral token.text)
  | _ => none

end Token

/-- The tokens of a text, and the line on which the text ends. -/
structure TokenList where
  tokens : List Token
  endLine : Nat
deriving DecidableEq, Repr

end ScriptKit
