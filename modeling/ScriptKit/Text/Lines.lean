/-!
# Lines of a text

Editors count lines by all line breaks that text can hold: line feed, carriage return, the two
together as one break, the vertical separators and the breaks beyond ASCII. A break at the very
end opens no further line. Files are read with one kind of break only, the line feed.
-/

set_option autoImplicit false

namespace ScriptKit.Text

/-- One line: what it holds and the break that ends it, which is empty for an unfinished line. -/
structure Line where
  content : List Char
  ending : List Char
deriving DecidableEq, Repr

/-- The whole line, its break included. -/
def Line.text (line : Line) : List Char := line.content ++ line.ending

/-- Does this character break a line? -/
def isLineBreak (c : Char) : Bool :=
  let code := c.toNat
  (0x0a ≤ code && code ≤ 0x0d) || (0x1c ≤ code && code ≤ 0x1e) ||
    code = 0x85 || code = 0x2028 || code = 0x2029

/-- Cut text into lines; `begun` holds the characters of the line so far, the last one first. -/
def linesFrom (begun : List Char) : List Char → List Line
  | [] => if begun.isEmpty then [] else [⟨begun.reverse, []⟩]
  | '\r' :: '\n' :: rest => ⟨begun.reverse, ['\r', '\n']⟩ :: linesFrom [] rest
  | c :: rest =>
    if isLineBreak c then ⟨begun.reverse, [c]⟩ :: linesFrom [] rest
    else linesFrom (c :: begun) rest

/-- The lines of a text. -/
def lines (text : String) : List Line := linesFrom [] text.toList

/-- Turn every break of carriage return and line feed, and every lone carriage return, into a
line feed; `done` holds what has been read so far, the last character first. -/
def unifyBreaksFrom (done : List Char) : List Char → List Char
  | [] => done.reverse
  | '\r' :: '\n' :: rest => unifyBreaksFrom ('\n' :: done) rest
  | c :: rest => unifyBreaksFrom ((if c = '\r' then '\n' else c) :: done) rest

/-- The text with the line feed as its only break. -/
def unifyBreaks (text : String) : String :=
  String.ofList (unifyBreaksFrom [] text.toList)

/-- The text of a file: its bytes must be well-formed UTF-8, and its breaks are unified. -/
def ofFileBytes? (bytes : ByteArray) : Option String :=
  (String.fromUTF8? bytes).map unifyBreaks

end ScriptKit.Text
