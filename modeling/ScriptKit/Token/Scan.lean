import ScriptKit.Token

/-!
# Scanning

`TokenList.ofText` cuts a text into tokens. At each place the longest token is taken; blanks and
line feeds only separate. The first character that can neither start a token nor separate two
ends the scan.

A text is a sequence of Unicode scalar values. Surrogate code points that stand alone, as some
sources let them, are no scalar values and occur in no text here, so nothing is said about them.
-/

set_option autoImplicit false

namespace ScriptKit

/-- A character that belongs to no token, and the line on which it stands. -/
structure StrayCharacter where
  char : Char
  line : Nat
deriving DecidableEq, Repr

namespace Token

/-- Can the character start a word? -/
def startsWord (c : Char) : Bool := c.isAlpha || c = '_'

/-- Can the character continue a word? -/
def continuesWord (c : Char) : Bool := c.isAlphanum || c = '_'

/-- Does the character separate tokens without ending the line? -/
def isGap (c : Char) : Bool := c = ' ' || c = '\t' || c = '\r'

/-- The longest token at the front of the text: its kind, its characters and what follows it. -/
def munch? : List Char → Option (Kind × List Char × List Char)
  | [] => none
  | c :: rest =>
    if c.isDigit then
      some (.number, c :: rest.takeWhile Char.isDigit, rest.dropWhile Char.isDigit)
    else if startsWord c then
      let word := c :: rest.takeWhile continuesWord
      some (.ofWord (String.ofList word), word, rest.dropWhile continuesWord)
    else if c = '=' ∧ rest.head? = some '=' then
      some (.equal, ['=', '='], rest.tail)
    else
      (Kind.ofMark? c).map fun kind => (kind, [c], rest)

/-- A token is never empty, so what follows it is shorter than the text. -/
theorem length_lt_of_munch? {text word rest : List Char} {kind : Kind}
    (h : munch? text = some (kind, word, rest)) : rest.length < text.length := by
  cases text with
  | nil => simp [munch?] at h
  | cons c tail =>
    have digits := (List.dropWhile_sublist (l := tail) Char.isDigit).length_le
    have letters := (List.dropWhile_sublist (l := tail) continuesWord).length_le
    have one : tail.tail.length ≤ tail.length := by simp
    simp only [munch?] at h
    grind [Option.map_eq_some_iff]

end Token

namespace TokenList

open Token

/-- Scan the rest of a text that begins on the given line, after the tokens `found`, the last one
first. -/
def scan (line : Nat) (found : List Token) (text : List Char) : Except StrayCharacter TokenList :=
  match text with
  | [] => .ok ⟨found.reverse, line⟩
  | c :: rest =>
    if c = '\n' then scan (line + 1) found rest
    else if isGap c then scan line found rest
    else
      match _h : munch? (c :: rest) with
      | some (kind, word, after) => scan line (⟨kind, String.ofList word, line⟩ :: found) after
      | none => .error ⟨c, line⟩
termination_by text.length
decreasing_by
  · simp
  · simp
  · exact length_lt_of_munch? _h

/-- The tokens of a text, or the first character that belongs to none. Lines are counted from
one, and only by line feeds. -/
def ofText (text : String) : Except StrayCharacter TokenList := scan 1 [] text.toList

end TokenList

end ScriptKit
