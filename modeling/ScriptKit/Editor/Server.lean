import ScriptKit.Editor.Host
import ScriptKit.Editor.Index

/-!
# The editor's server

The server answers an editor's requests about the texts of a workspace. The texts and the words in
them come from the host. The first question for a name makes the server read the scripts of the
workspace that it does not know yet, in the order in which the system lists them then.
-/

set_option autoImplicit false

namespace ScriptKit.Editor

/-- The state of the server. -/
structure Server (host : Host) where
  /-- What the library of the host remembers. -/
  memory : host.Memory
  index : Index
  /-- Have the files of the workspace been read? -/
  indexed : Bool

/-- A request of the editor. -/
inductive Request (host : Host) where
  /-- A document was opened. -/
  | opened (uri text : String)
  /-- The text of a document changed. -/
  | changed (uri : String) (change : host.Change)
  /-- A document was closed. -/
  | closed (uri : String)
  /-- The symbols of a document are to be read from a text. -/
  | update (uri text : String)
  /-- Where is the name declared? -/
  | declaration (name : String)
  /-- Which symbols does the document have? -/
  | symbols (uri : String)
  /-- Where is the variable at this place declared? -/
  | definition (uri : String) (line character : Nat)
  /-- How is the variable at this place declared? -/
  | hover (uri : String) (line character : Nat)

/-- An answer to the editor. -/
inductive Answer where
  | done
  | symbol (found : Option Symbol)
  | symbols (found : List Symbol)
deriving Repr

/-- What a request gives: an answer, and the documents whose diagnostics are published. -/
structure Reply where
  answer : Except DocumentError Answer
  published : List (String × List Diagnostic)

namespace Server

/-- Read the scripts with the given paths into the index, except those it knows. A script that
cannot be opened is left out; one that cannot be decoded stops the reading. -/
def indexScripts (room : Headroom) (workspace : Workspace) (index : Index) :
    List String → Except DocumentError Unit × Index
  | [] => (.ok (), index)
  | path :: rest =>
    let uri := workspace.uriOf path
    if index.knows uri then indexScripts room workspace index rest
    else
      match workspace.readText (.within []) path with
      | .ok text => indexScripts room workspace (index.update room uri text) rest
      | .error (.unreadable _) => indexScripts room workspace index rest
      | .error error => (.error error, index)

variable {host : Host} {workspace : Workspace}

/-- A server that was asked nothing yet. -/
def start (memory : host.Memory) : Server host := ⟨memory, .empty, false⟩

/-- Read the files of the workspace, if there is one and they have not been read yet. -/
def indexWorkspace (server : Server host) (listing : workspace.Listing) :
    Except DocumentError Unit × Server host :=
  if server.indexed then (.ok (), server)
  else
    let paths := if host.hasRoot server.memory then listing.paths else []
    match indexScripts host.room workspace server.index paths with
    | (.ok (), index) => (.ok (), { server with index, indexed := true })
    | (.error error, index) => (.error error, { server with index })

/-- The first declaration of a name. -/
def declarationOf (server : Server host) (listing : workspace.Listing) (name : String) :
    Except DocumentError (Option Symbol) × Server host :=
  match server.indexWorkspace listing with
  | (.ok (), server) => (.ok (server.index.first? name), server)
  | (.error error, server) => (.error error, server)

/-- The first declaration of the variable at a place. -/
def symbolAt (server : Server host) (listing : workspace.Listing) (uri : String)
    (line character : Nat) : Except DocumentError (Option Symbol) × Server host :=
  match (host.document server.memory workspace uri).wordAt line character with
  | .error error => (.error error, server)
  | .ok word => if word.isEmpty then (.ok none, server) else server.declarationOf listing word

/-- Read the symbols of a document anew and publish its diagnostics. -/
def receive (server : Server host) (uri text : String) : Reply × Server host :=
  (⟨.ok .done, [(uri, diagnostics text)]⟩,
    { server with index := server.index.update host.room uri text })

/-- The reply to a question for a symbol. -/
def symbolReply (result : Except DocumentError (Option Symbol) × Server host) :
    Reply × Server host :=
  (⟨result.1.map Answer.symbol, []⟩, result.2)

/-- Answer a request, with the scripts listed so if the server comes to read them. The library is
told of what happened to a document before the server is. -/
def handle (server : Server host) (listing : workspace.Listing) :
    Request host → Reply × Server host
  | .opened uri text =>
    { server with memory := host.opened server.memory uri text }.receive uri text
  | .changed uri change =>
    let server := { server with memory := host.changed server.memory uri change }
    let document := host.document server.memory workspace uri
    match document.source with
    | .ok text => server.receive document.uri text
    | .error error => (⟨.error error, []⟩, server)
  | .closed uri =>
    (⟨.ok .done, []⟩, { server with memory := host.closed server.memory uri })
  | .update uri text =>
    (⟨.ok .done, []⟩, { server with index := server.index.update host.room uri text })
  | .declaration name => symbolReply (server.declarationOf listing name)
  | .symbols uri => (⟨.ok (.symbols (server.index.symbolsOf uri)), []⟩, server)
  | .definition uri line character =>
    symbolReply (server.symbolAt listing uri line character)
  | .hover uri line character => symbolReply (server.symbolAt listing uri line character)

end Server

end ScriptKit.Editor
