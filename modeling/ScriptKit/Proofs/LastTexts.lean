import ScriptKit.Proofs.SymbolIndex

/-!
# The texts that the index goes by

The index of a server holds, for each document, the symbols of the text that the editor gave last;
only of a document that it was never given, the symbols of its file. When and how often the files of
the workspace were read, and whether such a reading was cut short, makes no difference to that
(`Server.index_of_lastTexts`). Nor does the order in which the files are listed, which may be
another one at each reading.
-/

set_option autoImplicit false

namespace ScriptKit.Editor

namespace Index

variable {room : Headroom} {workspace : Workspace} {texts : List (String × String)}
  {index index' : Index}

/-- The index goes by texts that were given one after another: by the last one of a document, and
without one by its file. -/
structure GoesBy (room : Headroom) (workspace : Workspace) (texts : List (String × String))
    (index : Index) : Prop where
  given : ∀ uri text, texts.reverse.lookup uri = some text →
    index.documents.lookup uri = some (symbols room uri text)
  file : ∀ uri found, index.documents.lookup uri = some found →
    texts.reverse.lookup uri = none →
      ∃ text, workspace.fileText uri = some text ∧ found = symbols room uri text

/-- An index that is updated goes by the new text as well. -/
theorem GoesBy.update (h : index.GoesBy room workspace texts) (uri text : String) :
    (index.update room uri text).GoesBy room workspace (texts ++ [(uri, text)]) := by
  refine ⟨?_, ?_⟩
  · intro other last hlast
    rw [List.reverse_append, List.reverse_singleton, List.singleton_append, lookup_cons] at hlast
    rw [lookup_update]
    split_ifs at hlast ⊢ with huri
    · cases hlast
      rw [huri]
    · exact h.given other last hlast
  · intro other found hfound hnone
    rw [List.reverse_append, List.reverse_singleton, List.singleton_append, lookup_cons] at hnone
    rw [lookup_update] at hfound
    split_ifs at hnone hfound with huri
    exact h.file other found hfound hnone

/-- The documents without an entry are those that are not known. -/
theorem lookup_eq_none_iff {uri : String} :
    index.documents.lookup uri = none ↔ uri ∉ index.known := by
  rw [known, ← isSome_lookup_iff, Option.not_isSome_iff_eq_none]

/-- The entry of a known document is fixed by its last text, or else by its file. -/
theorem GoesBy.lookup_eq (h : index.GoesBy room workspace texts) {uri : String}
    (hknown : uri ∈ index.known) :
    index.documents.lookup uri =
      ((texts.reverse.lookup uri).or (workspace.fileText uri)).map (symbols room uri) := by
  cases hlast : texts.reverse.lookup uri with
  | some text => exact h.given uri text hlast
  | none =>
    obtain ⟨found, hfound⟩ := Option.isSome_iff_exists.1 (isSome_lookup_iff.2 hknown)
    obtain ⟨text, htext, rfl⟩ := h.file uri found hfound hlast
    rw [hfound, htext]
    rfl

/-- A script is read only while its document is unknown, so none that was given is touched. -/
theorem GoesBy.added (h : index.GoesBy room workspace texts)
    (hadded : index.Added room workspace index') : index'.GoesBy room workspace texts := by
  induction hadded with
  | refl => exact h
  | @script index _ uri text hnew htext _ ih =>
    apply ih
    have hunknown : index.documents.lookup uri = none := lookup_eq_none_iff.2 hnew
    refine ⟨?_, ?_⟩
    · intro other last hlast
      have hother := h.given other last hlast
      rw [lookup_update, if_neg]
      · exact hother
      · rintro rfl
        rw [hunknown] at hother
        cases hother
    · intro other found hfound hnone
      rw [lookup_update] at hfound
      split_ifs at hfound with huri
      · cases hfound
        subst huri
        exact ⟨text, htext, rfl⟩
      · exact h.file other found hfound hnone

/-- Reading scripts leaves the entries of known documents as they are. -/
theorem Added.lookup_eq (h : index.Added room workspace index') {uri : String}
    (hknown : uri ∈ index.known) :
    index'.documents.lookup uri = index.documents.lookup uri := by
  induction h with
  | refl => rfl
  | script hnew _ _ ih =>
    rw [ih (mem_known_update.2 (.inr hknown)), lookup_update, if_neg]
    rintro rfl
    exact hnew hknown

/-- Documents are given by their order and the symbols of each. -/
theorem documents_eq_of_lookup_eq {documents documents' : List (String × List Symbol)}
    (hkeys : documents.map Prod.fst = documents'.map Prod.fst)
    (hnodup : (documents.map Prod.fst).Nodup)
    (h : ∀ uri ∈ documents.map Prod.fst, documents.lookup uri = documents'.lookup uri) :
    documents = documents' := by
  induction documents generalizing documents' with
  | nil => exact (List.map_eq_nil_iff.1 hkeys.symm).symm
  | cons document rest ih =>
    cases documents' with
    | nil => cases hkeys
    | cons document' rest' =>
      obtain ⟨hkey, hkeys⟩ := List.cons.inj hkeys
      obtain ⟨hnew, hnodup⟩ := List.nodup_cons.1 hnodup
      have hhead := h document.1 List.mem_cons_self
      rw [lookup_cons, lookup_cons, if_pos rfl, if_pos hkey] at hhead
      have hrest : rest = rest' := by
        refine ih hkeys hnodup fun uri hmem => ?_
        have hne : uri ≠ document.1 := fun heq => hnew (heq ▸ hmem)
        have htail := h uri (List.mem_cons_of_mem _ hmem)
        rwa [lookup_cons, lookup_cons, if_neg hne, if_neg (hkey ▸ hne)] at htail
      rw [hrest, Prod.ext hkey (Option.some.inj hhead)]

end Index

namespace Server

variable {host : Host} {workspace : Workspace}

/-- The server after requests, one after another. The files stay as they are; how they are listed
is given with each request. -/
def afterAll (server : Server host) : List (workspace.Listing × Request host) → Server host
  | [] => server
  | (listing, request) :: rest => (server.handle listing request).2.afterAll rest

/-- A new server after requests. -/
def after (memory : host.Memory) (requests : List (workspace.Listing × Request host)) :
    Server host :=
  (start memory).afterAll requests

/-- The texts of documents that requests give, one after another. -/
def givenAll (server : Server host) :
    List (workspace.Listing × Request host) → List (String × String)
  | [] => []
  | (listing, request) :: rest =>
    (server.given workspace request).toList ++ (server.handle listing request).2.givenAll rest

/-- The text of a document that requests to a new server gave last. -/
def lastGiven (memory : host.Memory) (requests : List (workspace.Listing × Request host))
    (uri : String) : Option String :=
  ((start memory).givenAll requests).reverse.lookup uri

variable {server : Server host} {request : Request host} {index : Index}
  {texts : List (String × String)}

/-- After a request the index goes by the text that it gave as well. -/
theorem Indexing.goesBy (hstep : server.Indexing workspace request index)
    (h : server.index.GoesBy host.room workspace texts) :
    index.GoesBy host.room workspace
      (texts ++ (server.given workspace request).toList) := by
  cases hstep with
  | given hgiven =>
    rw [hgiven]
    exact h.update ..
  | looked hgiven _ hadded =>
    rw [hgiven, Option.toList_none, List.append_nil]
    exact h.added hadded
  | kept hgiven =>
    rw [hgiven, Option.toList_none, List.append_nil]
    exact h

/-- A request writes only the entry of the document that it gives a text of, and a lookup only those
of documents that were unknown. -/
theorem Indexing.lookup_eq (hhost : host.KeepsUris)
    (hstep : server.Indexing workspace request index) {uri : String}
    (hother : request.edited? ≠ some uri)
    (hlookup : request.isLookup = true → uri ∈ server.index.known) :
    index.documents.lookup uri = server.index.documents.lookup uri := by
  cases hstep with
  | given hgiven =>
    rw [Index.lookup_update, if_neg]
    rintro rfl
    exact hother (edited?_of_given hhost hgiven)
  | looked _ hisLookup hadded => exact hadded.lookup_eq (hlookup hisLookup)
  | kept => rfl

/-- After requests the index goes by all texts that they gave. -/
theorem goesBy_afterAll (h : server.index.GoesBy host.room workspace texts)
    (requests : List (workspace.Listing × Request host)) :
    (server.afterAll requests).index.GoesBy host.room workspace
      (texts ++ server.givenAll requests) := by
  induction requests generalizing server texts with
  | nil =>
    rw [givenAll, List.append_nil]
    exact h
  | cons step rest ih =>
    obtain ⟨listing, request⟩ := step
    have hstep := (indexing_handle server listing request).goesBy h
    rw [givenAll, ← List.append_assoc]
    exact ih hstep

/-- Requests lead from a state that can be reached to another one. -/
theorem Reachable.afterAll (h : server.Reachable)
    (requests : List (workspace.Listing × Request host)) :
    (server.afterAll requests).Reachable := by
  induction requests generalizing server with
  | nil => exact h
  | cons step rest ih => exact ih (h.handle step.1 step.2)

/-- The index of a new server goes by the texts that it was given. -/
theorem goesBy_after (memory : host.Memory)
    (requests : List (workspace.Listing × Request host)) :
    (after memory requests).index.GoesBy host.room workspace
      ((start memory).givenAll requests) := by
  have hempty : (start memory).index.GoesBy host.room workspace [] := by
    constructor
    · intro uri text h
      cases h
    · intro uri found h
      cases h
  exact goesBy_afterAll hempty requests

/-- What a new server comes to after requests can be reached. -/
theorem reachable_after (memory : host.Memory)
    (requests : List (workspace.Listing × Request host)) :
    (after memory requests).Reachable := (Reachable.start memory).afterAll requests

/-- After any requests, the entry of a document has the symbols of the text that was given last, and
without one those of the text in its file. With a library that keeps to identifiers, a further
request changes no entry of another document, except that a lookup may add documents. So the index
is fixed by the order in which the documents became known and by the last text of each, however the
scripts were listed and whatever the library remembers. -/
theorem index_of_lastTexts (memory : host.Memory)
    (requests : List (workspace.Listing × Request host)) :
    (∀ uri text, lastGiven memory requests uri = some text →
      (after memory requests).index.documents.lookup uri = some (symbols host.room uri text)) ∧
      (∀ uri found, (after memory requests).index.documents.lookup uri = some found →
        lastGiven memory requests uri = none →
          ∃ text, workspace.fileText uri = some text ∧ found = symbols host.room uri text) ∧
      (host.KeepsUris → ∀ (listing : workspace.Listing) (request : Request host) uri,
        request.edited? ≠ some uri →
        (request.isLookup = true → uri ∈ (after memory requests).index.known) →
          ((after memory requests).handle listing request).2.index.documents.lookup uri =
            (after memory requests).index.documents.lookup uri) ∧
      ∀ (memory' : host.Memory) (requests' : List (workspace.Listing × Request host)),
        (after memory requests).index.known = (after memory' requests').index.known →
        (∀ uri ∈ (after memory requests).index.known,
          (lastGiven memory requests uri).or (workspace.fileText uri) =
            (lastGiven memory' requests' uri).or (workspace.fileText uri)) →
          (after memory requests).index = (after memory' requests').index := by
  have hgoesBy := goesBy_after memory requests
  refine ⟨hgoesBy.given, hgoesBy.file, ?_, ?_⟩
  · intro hhost listing request uri hother hlookup
    exact (indexing_handle _ listing request).lookup_eq hhost hother hlookup
  · intro memory' requests' hknown hlast
    have hgoesBy' := goesBy_after memory' requests'
    have hdocuments : (after memory requests).index.documents =
        (after memory' requests').index.documents := by
      apply Index.documents_eq_of_lookup_eq hknown (reachable_after memory requests).nodup
      intro uri hmem
      rw [hgoesBy.lookup_eq hmem, hgoesBy'.lookup_eq (hknown ▸ hmem)]
      exact congrArg (Option.map (symbols host.room uri)) (hlast uri hmem)
    rw [(reachable_after memory requests).consistent,
      (reachable_after memory' requests').consistent, hdocuments]

/-- A lookup of a name. -/
def lookupOf (name : String) :
    Workspace.halfReadable.Listing × Request Host.ofTexts :=
  (Workspace.readableFirst, .declaration name)

/-- A lookup reads a script and fails at another one, the editor opens the first and changes its
text, and the lookup is tried again. -/
def editedBetween : List (Workspace.halfReadable.Listing × Request Host.ofTexts) :=
  [lookupOf "a", (Workspace.readableFirst, .opened "file:///w/a.ql" "var b;"),
    (Workspace.readableFirst, .changed "file:///w/a.ql" "var c;"), lookupOf "c"]

/-- The symbols of the first script are read from a text, and that is all. -/
def updated : List (Workspace.halfReadable.Listing × Request Host.ofTexts) :=
  [(Workspace.readableFirst, .update "file:///w/a.ql" "var c;")]

/-- The first lookup leaves the script that it could read. -/
theorem index_after_lookup :
    (after [] [lookupOf "a"]).index =
      Index.empty.update .standard "file:///w/a.ql" "var a;" := by
  have hindex := indexWorkspace_readableFirst (start []) rfl
  simp only [after, afterAll, lookupOf, handle, symbolReply, declarationOf_snd, hindex]
  rfl

/-- The texts that the editor gave come after the one in the file, and the second lookup adds
nothing. -/
theorem index_after_editedBetween :
    (after [] editedBetween).index =
      ((Index.empty.update .standard "file:///w/a.ql" "var a;").update .standard
        "file:///w/a.ql" "var b;").update .standard "file:///w/a.ql" "var c;" := by
  have hindex := indexWorkspace_readableFirst (start []) rfl
  simp only [after, editedBetween, afterAll, lookupOf, handle, receive, symbolReply,
    declarationOf_snd, hindex]
  rw [indexWorkspace_readableFirst _ (by decide +kernel)]
  rfl

/-- The text that the editor gave last is kept when the files are read again. The text in the file
counts only before one is given, and leaves no trace. -/
theorem index_of_lastTexts_editedBetween :
    lastGiven [] editedBetween "file:///w/a.ql" = some "var c;" ∧
      (after [] editedBetween).index.documents.lookup "file:///w/a.ql" =
        some (symbols .standard "file:///w/a.ql" "var c;") ∧
      (after [] [lookupOf "a"]).index.documents.lookup "file:///w/a.ql" =
        some (symbols .standard "file:///w/a.ql" "var a;") ∧
      (∃ text, Workspace.halfReadable.fileText "file:///w/a.ql" = some text ∧
        symbols .standard "file:///w/a.ql" "var a;" = symbols .standard "file:///w/a.ql" text) ∧
      (after [] editedBetween).index.known = ["file:///w/a.ql"] ∧
      Host.ofTexts.KeepsUris ∧
      ((after [] editedBetween).handle Workspace.readableFirst
          (.declaration "c")).2.index.documents.lookup "file:///w/a.ql" =
        (after [] editedBetween).index.documents.lookup "file:///w/a.ql" ∧
      (after [] editedBetween).index = (after [] updated).index := by
  have hknown : (after [] editedBetween).index.known = ["file:///w/a.ql"] := by
    rw [index_after_editedBetween]
    decide +kernel
  have hlast : lastGiven [] editedBetween "file:///w/a.ql" = some "var c;" := rfl
  have hread : (after [] [lookupOf "a"]).index.documents.lookup "file:///w/a.ql" =
      some (symbols .standard "file:///w/a.ql" "var a;") := by
    rw [index_after_lookup, Index.lookup_update, if_pos rfl]
  obtain ⟨hgiven, _, hframe, hsame⟩ := index_of_lastTexts [] editedBetween
  obtain ⟨_, hfile, _⟩ := index_of_lastTexts [] [lookupOf "a"]
  refine ⟨hlast, hgiven _ _ hlast, hread, hfile _ _ hread rfl, hknown, Host.keepsUris_ofTexts,
    ?_, ?_⟩
  · refine hframe Host.keepsUris_ofTexts Workspace.readableFirst (.declaration "c")
      "file:///w/a.ql" (by decide) fun _ => ?_
    rw [hknown]
    exact List.mem_singleton_self _
  · refine hsame [] updated (hknown.trans (by decide +kernel)) ?_
    intro uri hmem
    rw [hknown] at hmem
    rw [List.mem_singleton.1 hmem, hlast]
    rfl

end Server

end ScriptKit.Editor
