import ScriptKit.Editor.Server
import ScriptKit.Proofs.Identifiers
import Mathlib.Data.List.Nodup
import Mathlib.Data.List.Infix

/-!
# The symbol index of the editor's server

What a request does to the index is said once, by `Server.Indexing`: it may give the index a new
text of one document, it may add scripts of the workspace that the index does not know, or it leaves
the index as it is. From this follows that in every state that the server can reach, documents stand
in the order in which they became known, and the symbols of a name are those of the documents, in
that order (`Server.index_consistent`). Nothing is assumed of the host for this, and the scripts of
the workspace may be listed in any order, each time in another one.
-/

set_option autoImplicit false

namespace ScriptKit.Editor

namespace Index

/-- The identifiers of the known documents, in the order in which they became known. -/
def known (index : Index) : List String := index.documents.map Prod.fst

/-- All symbols of a name, document by document. -/
def declarations (index : Index) (name : String) : List Symbol :=
  index.documents.flatMap fun document => document.2.filter (·.name = name)

/-! ## Setting the symbols of a document -/

/-- Putting in a document keeps the order of the others, and a new one comes last. -/
theorem map_fst_put (uri : String) (found : List Symbol) (documents : List (String × List Symbol)) :
    (put uri found documents).map Prod.fst =
      if uri ∈ documents.map Prod.fst then documents.map Prod.fst
      else documents.map Prod.fst ++ [uri] := by
  induction documents with
  | nil => rfl
  | cons document rest ih =>
    unfold put
    by_cases h : document.1 = uri
    · simp [h]
    · have hne : uri ≠ document.1 := fun heq => h heq.symm
      simp only [h, if_false, List.map_cons, ih, List.mem_cons, hne, false_or]
      split_ifs <;> rfl

/-- A document is looked for from the first one on. -/
theorem lookup_cons {α : Type} (document : String × α) (rest : List (String × α)) (uri : String) :
    (document :: rest).lookup uri =
      if uri = document.1 then some document.2 else rest.lookup uri := by
  rw [List.lookup_cons]
  by_cases h : uri = document.1
  · simp [h]
  · simp [beq_false_of_ne h, h]

/-- The document that was put in is found, and the others are as before. -/
theorem lookup_put (uri other : String) (found : List Symbol)
    (documents : List (String × List Symbol)) :
    (put uri found documents).lookup other =
      if other = uri then some found else documents.lookup other := by
  induction documents with
  | nil => exact lookup_cons ..
  | cons document rest ih =>
    unfold put
    by_cases h : document.1 = uri
    · simp only [h, if_true, lookup_cons]
      split_ifs <;> rfl
    · simp only [h, if_false, lookup_cons, ih]
      by_cases hother : other = uri
      · have hne : uri ≠ document.1 := fun heq => h heq.symm
        simp only [hother, hne, if_true, if_false]
      · simp only [hother, if_false]

/-- The documents that are found are those that are listed. -/
theorem isSome_lookup_iff {documents : List (String × List Symbol)} {uri : String} :
    (documents.lookup uri).isSome ↔ uri ∈ documents.map Prod.fst := by
  induction documents with
  | nil => simp
  | cons document rest ih =>
    rw [lookup_cons, List.map_cons, List.mem_cons]
    split_ifs with h
    · simp [h]
    · simp [h, ih]

/-- The index knows the documents that it lists. -/
@[simp]
theorem knows_iff {index : Index} {uri : String} : index.knows uri = true ↔ uri ∈ index.known := by
  simp [knows, known]

/-- After an update the document has the symbols of the text, and the others keep theirs. -/
@[simp]
theorem lookup_update (index : Index) (room : Headroom) (uri other text : String) :
    (index.update room uri text).documents.lookup other =
      if other = uri then some (symbols room uri text) else index.documents.lookup other :=
  lookup_put ..

/-- A document that is updated keeps its place, and one that becomes known by it comes last. -/
theorem known_update (index : Index) (room : Headroom) (uri text : String) :
    (index.update room uri text).known =
      if uri ∈ index.known then index.known else index.known ++ [uri] :=
  map_fst_put ..

/-- An update makes one document known and forgets none. -/
@[simp]
theorem mem_known_update {index : Index} {room : Headroom} {uri other text : String} :
    other ∈ (index.update room uri text).known ↔ other = uri ∨ other ∈ index.known := by
  rw [known_update]
  split_ifs with h
  · exact ⟨.inr, fun hor => hor.elim (fun heq => heq ▸ h) id⟩
  · simp [or_comm]

/-- An update only appends to the order of the documents. -/
theorem known_prefix_update (index : Index) (room : Headroom) (uri text : String) :
    index.known <+: (index.update room uri text).known := by
  rw [known_update]
  split_ifs
  · exact List.prefix_refl _
  · exact List.prefix_append ..

/-- No update makes a document known twice. -/
theorem nodup_update {index : Index} (h : index.known.Nodup) (room : Headroom)
    (uri text : String) : (index.update room uri text).known.Nodup := by
  rw [known_update]
  split_ifs with hmem
  · exact h
  · exact List.nodup_append.2 ⟨h, List.nodup_singleton uri, by
      rintro other hother _ (_ | ⟨_, ⟨⟩⟩) rfl
      exact hmem hother⟩

/-! ## The symbols of a name -/

/-- Added symbols come behind those that are already filed under their name. -/
theorem getD_foldl_addSymbol (symbols : List Symbol) (names : Std.TreeMap String (List Symbol))
    (name : String) :
    (symbols.foldl addSymbol names).getD name [] =
      names.getD name [] ++ symbols.filter (·.name = name) := by
  induction symbols generalizing names with
  | nil => simp
  | cons symbol rest ih =>
    rw [List.foldl_cons, ih, addSymbol, Std.TreeMap.getD_insert]
    by_cases h : symbol.name = name
    · simp [h]
    · simp [h]

/-- The names under which something is filed are those from before and those of the added
symbols. -/
theorem mem_foldl_addSymbol {symbols : List Symbol} {names : Std.TreeMap String (List Symbol)}
    {name : String} :
    name ∈ symbols.foldl addSymbol names ↔
      name ∈ names ∨ ∃ symbol ∈ symbols, symbol.name = name := by
  induction symbols generalizing names with
  | nil => simp
  | cons symbol rest ih =>
    rw [List.foldl_cons, ih, addSymbol, Std.TreeMap.mem_insert]
    simp [or_assoc, or_left_comm]

/-- The symbols by name are those of the documents. -/
def Consistent (index : Index) : Prop := index = ofDocuments index.documents

/-- The empty index is consistent. -/
theorem consistent_empty : empty.Consistent := rfl

/-- An index is consistent after each update, since it files all symbols anew. -/
theorem consistent_update (index : Index) (room : Headroom) (uri text : String) :
    (index.update room uri text).Consistent := rfl

variable {index : Index}

/-- A consistent index has the names that its documents declare. -/
theorem Consistent.mem_byName (h : index.Consistent) {name : String} :
    name ∈ index.byName ↔
      ∃ document ∈ index.documents, ∃ symbol ∈ document.2, symbol.name = name := by
  rw [h]
  simp only [ofDocuments, mem_foldl_addSymbol, Std.TreeMap.not_mem_emptyc, false_or,
    List.mem_flatMap]
  exact ⟨fun ⟨symbol, ⟨document, hmem, hsymbol⟩, hname⟩ => ⟨document, hmem, symbol, hsymbol, hname⟩,
    fun ⟨document, hmem, symbol, hsymbol, hname⟩ => ⟨symbol, ⟨document, hmem, hsymbol⟩, hname⟩⟩

/-- A consistent index files under a name what declares it. -/
theorem Consistent.getD_byName (h : index.Consistent) (name : String) :
    index.byName.getD name [] = index.declarations name := by
  rw [h]
  simp only [ofDocuments, declarations, getD_foldl_addSymbol, Std.TreeMap.getD_emptyc,
    List.nil_append, List.filter_flatMap]

/-- What a consistent index finds under one of its names is what declares it. -/
theorem Consistent.getElem?_byName (h : index.Consistent) {name : String}
    (hmem : name ∈ index.byName) : index.byName[name]? = some (index.declarations name) := by
  rw [← h.getD_byName]
  exact Std.TreeMap.getElem?_eq_some_getD hmem

/-- A consistent index leads to the first symbol that declares the name. -/
theorem Consistent.first?_eq (h : index.Consistent) (name : String) :
    index.first? name = (index.declarations name).head? := by
  rw [first?, h.getD_byName]

end Index

/-! ## What a request does to the index -/

/-- The second index is the first with scripts of the workspace that it did not know. -/
inductive Index.Added (room : Headroom) (workspace : Workspace) : Index → Index → Prop where
  | refl (index : Index) : Added room workspace index index
  | script {index index' : Index} {uri text : String} (hnew : uri ∉ index.known)
      (htext : workspace.fileText uri = some text)
      (hrest : Added room workspace (index.update room uri text) index') :
      Added room workspace index index'

/-- What holds after any update holds after all of them. -/
theorem Index.Added.keeps {room : Headroom} {workspace : Workspace} {index index' : Index}
    (h : index.Added room workspace index') (P : Index → Prop)
    (hupdate : ∀ index uri text, P index → P (Index.update index room uri text))
    (hindex : P index) : P index' := by
  induction h with
  | refl => exact hindex
  | script _ _ _ ih => exact ih (hupdate _ _ _ hindex)

namespace Request

variable {host : Host}

/-- The document of which the request may give a text. -/
def edited? : Request host → Option String
  | .opened uri _ | .changed uri _ | .update uri _ => some uri
  | _ => none

/-- May the request look a name up in the workspace? -/
def isLookup : Request host → Bool
  | .declaration _ | .definition _ _ _ | .hover _ _ _ => true
  | _ => false

end Request

namespace Server

variable {host : Host} {workspace : Workspace}

/-- The document and the text that a request gives the index. A change gives the text that the
library has once it has taken the change up, if that is to be had. -/
def given (server : Server host) (workspace : Workspace) :
    Request host → Option (String × String)
  | .opened uri text | .update uri text => some (uri, text)
  | .changed uri change =>
    let document := host.document (host.changed server.memory uri change) workspace uri
    document.source.toOption.map (document.uri, ·)
  | _ => none

/-- What a request may leave as the index. -/
inductive Indexing (server : Server host) (workspace : Workspace) (request : Request host) :
    Index → Prop where
  /-- A text of one document was given. -/
  | given {uri text : String} (h : server.given workspace request = some (uri, text)) :
      Indexing server workspace request (server.index.update host.room uri text)
  /-- A name was looked up. -/
  | looked {index : Index} (hgiven : server.given workspace request = none)
      (hlookup : request.isLookup = true) (h : server.index.Added host.room workspace index) :
      Indexing server workspace request index
  /-- The index was not written. -/
  | kept (h : server.given workspace request = none) :
      Indexing server workspace request server.index

/-- What every update keeps, every request keeps. -/
theorem Indexing.keeps {server : Server host} {request : Request host} {index : Index}
    (h : server.Indexing workspace request index) (P : Index → Prop)
    (hupdate : ∀ index uri text, P index → P (Index.update index host.room uri text))
    (hindex : P server.index) : P index := by
  cases h with
  | given => exact hupdate _ _ _ hindex
  | looked _ _ hadded => exact hadded.keeps P hupdate hindex
  | kept => exact hindex

/-- If the library keeps to identifiers, a request gives a text only of the document that it is
about. -/
theorem edited?_of_given (hhost : host.KeepsUris) {server : Server host} {request : Request host}
    {uri text : String} (h : server.given workspace request = some (uri, text)) :
    request.edited? = some uri := by
  cases request with
  | opened | update =>
    cases h
    rfl
  | changed edited change =>
    obtain ⟨_, _, heq⟩ := Option.map_eq_some_iff.1 h
    cases heq
    exact congrArg some (hhost ..).symm
  | _ => cases h

/-- Reading listed scripts adds scripts that were unknown and does nothing else, also if it is cut
short. -/
theorem added_indexScripts (listing : workspace.Listing) (room : Headroom) {index : Index}
    {paths : List String} (hpaths : ∀ path ∈ paths, path ∈ listing.paths) :
    index.Added room workspace (indexScripts room workspace index paths).2 := by
  induction paths generalizing index with
  | nil => exact .refl index
  | cons path rest ih =>
    have hrest : ∀ other ∈ rest, other ∈ listing.paths :=
      fun other hother => hpaths other (List.mem_cons_of_mem path hother)
    unfold indexScripts
    by_cases hknown : workspace.uriOf path ∈ index.known
    · simp only [Index.knows_iff.2 hknown, if_true]
      exact ih hrest
    · simp only [Index.knows_iff, hknown, if_false]
      cases hread : workspace.readText (.within []) path with
      | ok text =>
        have htext := workspace.fileText_uriOf listing (hpaths path List.mem_cons_self) hread
        exact .script hknown htext (ih hrest)
      | error error =>
        cases error with
        | unreadable => exact ih hrest
        | nullInPath | undecodable => exact .refl index

variable (server : Server host) (listing : workspace.Listing)

/-- Reading the workspace adds scripts that were unknown and does nothing else to the index. -/
theorem added_indexWorkspace :
    server.index.Added host.room workspace (server.indexWorkspace listing).2.index := by
  unfold indexWorkspace
  split_ifs with hindexed hroot
  · exact .refl _
  · have hadded : server.index.Added host.room workspace
        (indexScripts host.room workspace server.index listing.paths).2 :=
      added_indexScripts listing host.room fun _ hmem => hmem
    dsimp only
    split <;> simp_all
  · exact .refl _

/-- A lookup of a name leaves the server as reading the workspace does. -/
theorem declarationOf_snd (name : String) :
    (server.declarationOf listing name).2 = (server.indexWorkspace listing).2 := by
  unfold declarationOf
  split <;> simp_all

/-- What a lookup finds is the first symbol of the name in the index that it leaves. -/
theorem eq_first?_of_declarationOf {server server' : Server host} {name : String}
    {found : Option Symbol} (h : server.declarationOf listing name = (.ok found, server')) :
    found = server'.index.first? name := by
  unfold declarationOf at h
  split at h
  · cases h
    rfl
  · cases h

/-- A question about a place leaves the server as it was, or as reading the workspace does. -/
theorem symbolAt_snd (uri : String) (line character : Nat) :
    (server.symbolAt listing uri line character).2 = server ∨
      (server.symbolAt listing uri line character).2 = (server.indexWorkspace listing).2 := by
  unfold symbolAt
  split
  · exact .inl rfl
  · split_ifs
    · exact .inl rfl
    · exact .inr (declarationOf_snd ..)

/-- Each request does to the index one of the things that `Indexing` lists. -/
theorem indexing_handle (request : Request host) :
    server.Indexing workspace request (server.handle listing request).2.index := by
  have hadded := added_indexWorkspace server listing
  cases request with
  | opened | update => exact .given rfl
  | changed uri change =>
    cases htext : (host.document (host.changed server.memory uri change) workspace uri).source with
    | ok text =>
      have hgiven : server.given workspace (.changed uri change) =
          some ((host.document (host.changed server.memory uri change) workspace uri).uri,
            text) := by
        simp [Server.given, htext, Except.toOption]
      simpa [handle, htext, receive] using Indexing.given hgiven
    | error error =>
      have hgiven : server.given workspace (.changed uri change) = none := by
        simp [Server.given, htext, Except.toOption]
      simpa [handle, htext] using Indexing.kept hgiven
  | closed | symbols => exact .kept rfl
  | declaration name =>
    refine .looked rfl rfl ?_
    unfold handle symbolReply
    rwa [declarationOf_snd]
  | definition uri line character | hover uri line character =>
    refine .looked rfl rfl ?_
    unfold handle symbolReply
    obtain hsame | hsame := symbolAt_snd server listing uri line character
    · rw [hsame]
      exact .refl _
    · rwa [hsame]

/-! ## The states that the server can reach -/

/-- The server was started and asked any number of requests. At each request the files, and the
order in which they are listed, may be others, and between requests the library may come to remember
anything. -/
inductive Reachable : Server host → Prop where
  | start (memory : host.Memory) : Reachable (start memory)
  | handle {server : Server host} {workspace : Workspace} (listing : workspace.Listing)
      (request : Request host) (h : Reachable server) :
      Reachable (server.handle listing request).2
  | library {server : Server host} (memory : host.Memory) (h : Reachable server) :
      Reachable { server with memory }

/-- What every update keeps of an empty index holds in every state. -/
theorem Reachable.keeps {server : Server host} (h : server.Reachable) (P : Index → Prop)
    (hupdate : ∀ index uri text, P index → P (Index.update index host.room uri text))
    (hempty : P .empty) : P server.index := by
  induction h with
  | start => exact hempty
  | handle listing request _ ih => exact (indexing_handle _ listing request).keeps P hupdate ih
  | library _ _ ih => exact ih

/-- A lookup leads from a state that can be reached to another one. -/
theorem Reachable.declarationOf {server : Server host} (h : server.Reachable) (name : String) :
    (server.declarationOf listing name).2.Reachable := h.handle listing (.declaration name)

/-- In every state the symbols by name are those of the documents. -/
theorem Reachable.consistent {server : Server host} (h : server.Reachable) :
    server.index.Consistent :=
  h.keeps Index.Consistent (fun index uri text _ => index.consistent_update host.room uri text)
    Index.consistent_empty

/-- In every state each document is known once. -/
theorem Reachable.nodup {server : Server host} (h : server.Reachable) :
    server.index.known.Nodup :=
  h.keeps (·.known.Nodup)
    (fun _ uri text hnodup => Index.nodup_update hnodup host.room uri text) List.nodup_nil

/-- In every state the documents are in the order in which they became known, each once: requests
only append to that order. A name is in the index if and only if a document declares it, its symbols
are then all symbols of that name, document by document, and a declaration that was found is the
first of them. This holds for every host, and for every order in which the scripts of the workspace
are listed. -/
theorem index_consistent {server : Server host} (h : server.Reachable) :
    server.index.known.Nodup ∧
      (∀ {workspace : Workspace} (listing : workspace.Listing) (request : Request host),
        server.index.known <+: (server.handle listing request).2.index.known) ∧
      (∀ name, name ∈ server.index.byName ↔
        ∃ document ∈ server.index.documents, ∃ symbol ∈ document.2, symbol.name = name) ∧
      (∀ name ∈ server.index.byName,
        server.index.byName[name]? = some (server.index.declarations name)) ∧
      ∀ {workspace : Workspace} (listing : workspace.Listing) name found server',
        server.declarationOf listing name = (.ok found, server') →
          found = (server'.index.declarations name).head? := by
  refine ⟨?_, ?_, ?_, ?_, ?_⟩
  · exact h.nodup
  · intro workspace listing request
    exact (indexing_handle server listing request).keeps (server.index.known <+: ·.known)
      (fun index uri text hprefix =>
        hprefix.trans (index.known_prefix_update host.room uri text))
      (List.prefix_refl _)
  · intro name
    exact h.consistent.mem_byName
  · intro name hmem
    exact h.consistent.getElem?_byName hmem
  · intro workspace listing name found server' hfound
    have hconsistent := (h.declarationOf listing name).consistent
    rw [hfound] at hconsistent
    rw [← hconsistent.first?_eq]
    exact eq_first?_of_declarationOf listing hfound

end Server

/-! ## A host, and scripts one of which cannot be decoded -/

/-- A host that keeps the texts of the open documents, the latest first, and lists trees up to the
standard depth. A change is the new text as a whole, and a document that is not open is not to be
had. All of a text counts as one word. -/
def Host.ofTexts : Host where
  room := .standard
  Memory := List (String × String)
  Change := String
  opened texts uri text := (uri, text) :: texts
  changed texts uri text := (uri, text) :: texts
  closed texts uri := texts.filter (·.1 ≠ uri)
  document texts _ uri :=
    let source := ((texts.lookup uri).map Except.ok).getD (.error (.unreadable .missing))
    ⟨uri, source, fun _ _ => source⟩
  hasRoot _ := true

/-- Documents keep their identifiers. -/
theorem Host.keepsUris_ofTexts : Host.ofTexts.KeepsUris := fun _ _ _ => rfl

/-- Of the two scripts the second cannot be decoded. -/
def Workspace.halfReadable : Workspace :=
  ⟨"file:///w", ⟨[(["b.ql"], ⟨#[0xFF]⟩), (["a.ql"], "var a;".toUTF8)], []⟩⟩

namespace Workspace

/-- Both files are scripts. -/
theorem scripts_halfReadable : halfReadable.scripts = ["b.ql", "a.ql"] := by decide +kernel

/-- The readable script is listed first. -/
def readableFirst : halfReadable.Listing where
  paths := ["a.ql", "b.ql"]
  perm := scripts_halfReadable ▸ .swap ..

/-- What the scripts hold. -/
theorem readText_halfReadable :
    halfReadable.readText (.within []) "a.ql" = .ok "var a;" ∧
      halfReadable.readText (.within []) "b.ql" = .error .undecodable := by
  have ha : "a.ql".splitOn "/" = ["a.ql"] := by simp +decide [String.splitOn, String.splitOnAux]
  have hb : "b.ql".splitOn "/" = ["b.ql"] := by simp +decide [String.splitOn, String.splitOnAux]
  simp only [readText, FileTree.readFrom, ha, hb]
  decide +kernel

/-- The identifiers of the scripts. -/
theorem uriOf_halfReadable :
    halfReadable.uriOf "a.ql" = "file:///w/a.ql" ∧
      halfReadable.uriOf "b.ql" = "file:///w/b.ql" := by
  decide +kernel

end Workspace

namespace Server

/-- The first script is read if it is not known, and the second stops the reading if it is not. -/
theorem indexWorkspace_readableFirst (server : Server Host.ofTexts)
    (hindexed : server.indexed = false) :
    server.indexWorkspace Workspace.readableFirst =
      (if "file:///w/b.ql" ∈ server.index.known then .ok () else .error .undecodable,
        { server with
          index :=
            if "file:///w/a.ql" ∈ server.index.known then server.index
            else server.index.update .standard "file:///w/a.ql" "var a;"
          indexed := decide ("file:///w/b.ql" ∈ server.index.known) }) := by
  obtain ⟨hreadA, hreadB⟩ := Workspace.readText_halfReadable
  obtain ⟨hA, hB⟩ := Workspace.uriOf_halfReadable
  have hroot : Host.ofTexts.hasRoot server.memory = true := rfl
  have hroom : Host.ofTexts.room = .standard := rfl
  by_cases hknownA : "file:///w/a.ql" ∈ server.index.known <;>
    by_cases hknownB : "file:///w/b.ql" ∈ server.index.known <;>
    simp [indexWorkspace, indexScripts, Workspace.readableFirst, *]

/-- A lookup failed at the second script, then the editor gave a text of that script. -/
def retried : Server Host.ofTexts :=
  (((start []).handle Workspace.readableFirst (.declaration "a")).2.handle
    Workspace.readableFirst (.update "file:///w/b.ql" "var b; var a;")).2

/-- The failed lookup has left the first script in the index. -/
theorem retried_eq :
    retried = ⟨[], (Index.empty.update .standard "file:///w/a.ql" "var a;").update .standard
      "file:///w/b.ql" "var b; var a;", false⟩ := by
  have hindex := indexWorkspace_readableFirst (start []) rfl
  simp only [retried, handle, symbolReply, declarationOf_snd, hindex]
  rfl

/-- Both scripts declare the name; the one that became known first counts. -/
theorem index_consistent_retried :
    retried.Reachable ∧ "a" ∈ retried.index.byName ∧
      (retried.declarationOf Workspace.readableFirst "a").1 =
        .ok (some ⟨"a", "file:///w/a.ql", 0, "var a"⟩) ∧
      retried.index.byName["a"]? = some (retried.index.declarations "a") ∧
      some ⟨"a", "file:///w/a.ql", 0, "var a"⟩ =
        ((retried.declarationOf Workspace.readableFirst "a").2.index.declarations "a").head? := by
  have hstart : (start [] : Server Host.ofTexts).Reachable := .start _
  have hreachable : retried.Reachable :=
    (hstart.handle Workspace.readableFirst _).handle Workspace.readableFirst _
  have hmem : "a" ∈ retried.index.byName := by
    rw [retried_eq]
    decide +kernel
  have hfound : (retried.declarationOf Workspace.readableFirst "a").1 =
      .ok (some ⟨"a", "file:///w/a.ql", 0, "var a"⟩) := by
    have hindex := indexWorkspace_readableFirst retried (by rw [retried_eq])
    unfold declarationOf
    rw [hindex, retried_eq]
    decide +kernel
  obtain ⟨_, _, _, hsymbols, hfirst⟩ := index_consistent hreachable
  exact ⟨hreachable, hmem, hfound, hsymbols "a" hmem,
    hfirst Workspace.readableFirst "a" _ _ (Prod.ext hfound rfl)⟩

end Server

end ScriptKit.Editor
