import ScriptKit.Editor.Workspace
import ScriptKit.Headroom

/-!
# Hosts

A server does not speak to the editor itself, nor does it keep the editor's documents. A library
does both, and hands documents out on request. What the library remembers, how it takes up changes
and which words it sees are parameters of the server.
-/

set_option autoImplicit false

namespace ScriptKit.Editor

/-- A document as the library hands it out. -/
structure Document where
  uri : String
  /-- The text, if it is to be had. -/
  source : Except DocumentError String
  /-- The word at a place, given by a line and by a place in the line; it is empty if there is
  none. -/
  wordAt : (line character : Nat) → Except DocumentError String

/-- What a server runs on: how deep listings of program trees may go, and the library that speaks
to the editor. -/
structure Host where
  room : Headroom
  /-- What the library remembers between two requests. -/
  Memory : Type
  /-- A change of a text, in the form in which the editor sends it. -/
  Change : Type
  /-- Remember that a document was opened with a text. -/
  opened : Memory → (uri text : String) → Memory
  /-- Take up a change of a document. -/
  changed : Memory → (uri : String) → Change → Memory
  /-- Remember that a document was closed. -/
  closed : Memory → (uri : String) → Memory
  /-- The document with an identifier. The files are there to be read if it is not open. -/
  document : Memory → Workspace → (uri : String) → Document
  /-- Was the library told the directory of the workspace? -/
  hasRoot : Memory → Bool

/-- The document that is handed out for an identifier has that identifier. -/
def Host.KeepsUris (host : Host) : Prop :=
  ∀ memory workspace uri, (host.document memory workspace uri).uri = uri

end ScriptKit.Editor
