import ScriptKit.Editor.Document
import Std.Data.TreeMap

/-!
# The symbol index

The index holds the symbols of each known document, in the order in which the documents became
known, and beside them the symbols of each name.
-/

set_option autoImplicit false

namespace ScriptKit.Editor

/-- The symbols of documents, by document and by name. -/
structure Index where
  /-- The documents with their symbols, in the order in which they became known. -/
  documents : List (String × List Symbol)
  /-- The symbols of each name, in the order of the documents. -/
  byName : Std.TreeMap String (List Symbol)

namespace Index

/-- No document is known. -/
def empty : Index := ⟨[], ∅⟩

/-- Set the symbols of a document. A known document keeps its place, a new one comes last. -/
def put (uri : String) (found : List Symbol) :
    List (String × List Symbol) → List (String × List Symbol)
  | [] => [(uri, found)]
  | (known, symbols) :: rest =>
    if known = uri then (uri, found) :: rest else (known, symbols) :: put uri found rest

/-- Add a symbol behind the others of its name. -/
def addSymbol (names : Std.TreeMap String (List Symbol)) (symbol : Symbol) :
    Std.TreeMap String (List Symbol) :=
  names.insert symbol.name (names.getD symbol.name [] ++ [symbol])

/-- The index of documents. -/
def ofDocuments (documents : List (String × List Symbol)) : Index :=
  ⟨documents, (documents.flatMap Prod.snd).foldl addSymbol ∅⟩

/-- The index with the symbols of a document read anew from its text. -/
def update (index : Index) (room : Headroom) (uri text : String) : Index :=
  ofDocuments (put uri (symbols room uri text) index.documents)

/-- The symbols of a document; an unknown document has none. -/
def symbolsOf (index : Index) (uri : String) : List Symbol :=
  (index.documents.lookup uri).getD []

/-- Is the document known? -/
def knows (index : Index) (uri : String) : Bool := index.documents.any (·.1 = uri)

/-- The first symbol of a name. -/
def first? (index : Index) (name : String) : Option Symbol :=
  (index.byName.getD name []).head?

end Index

end ScriptKit.Editor
