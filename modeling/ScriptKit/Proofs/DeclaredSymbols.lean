import ScriptKit.Editor.Document
import ScriptKit.Proofs.FailureOrigin
import ScriptKit.Proofs.Footprint
import ScriptKit.Proofs.Sequence

/-!
# The symbols of a text and its declarations

Declarations are looked for in three ways: in the tokens, by the words that declare; in the tree, by
the walk that collects symbols; and in a run, by the variables that it binds. In a program without
errors the symbols are what the declaring words say, one for each of them. Where statements were
given up, some of the words have no symbol, and the others have theirs in the same order. Whatever a
run on no variables binds is a symbol or was assigned to.

The name of a text is found in the messages of markers only, so the symbols of a text are those of
its program under any name.
-/

set_option autoImplicit false

namespace ScriptKit

/-! ## Declaring words -/

namespace Token

/-- The words that declare, each with the token directly behind it. -/
def declaringWords : List Token → List (Token × Option Token)
  | [] => []
  | token :: rest =>
    if token.kind = .varWord then (token, rest.head?) :: declaringWords rest
    else declaringWords rest

/-- What is behind each declaring word, and the line of the word, counted from zero. -/
def declaredTexts (tokens : List Token) : List (Option String × Int) :=
  (declaringWords tokens).map fun pair => (pair.2.map Token.text, (pair.1.line : Int) - 1)

/-- The names directly behind declaring words, each with the line of the word, counted from zero. -/
def declaredNames (tokens : List Token) : List (String × Int) :=
  (declaringWords tokens).filterMap fun pair =>
    (pair.2.filter (·.kind = .name)).map fun name => (name.text, (pair.1.line : Int) - 1)

variable {token word name : Token} {front rest tokens : List Token}

/-- A token of another kind is no declaring word. -/
theorem declaringWords_cons_of_ne (h : token.kind ≠ .varWord) (rest : List Token) :
    declaringWords (token :: rest) = declaringWords rest := by
  rw [declaringWords, if_neg h]

/-- Tokens of other kinds in front make no difference to the declaring words. -/
theorem declaringWords_append_of_ne (h : ∀ token ∈ front, token.kind ≠ .varWord)
    (rest : List Token) : declaringWords (front ++ rest) = declaringWords rest := by
  induction front with
  | nil => rfl
  | cons token front ih =>
    rw [List.forall_mem_cons] at h
    rw [List.cons_append, declaringWords_cons_of_ne h.1, ih h.2]

/-- A word that declares a name. -/
theorem declaringWords_declaration (hword : word.kind = .varWord) (hname : name.kind = .name)
    (rest : List Token) :
    declaringWords (word :: name :: rest) = (word, some name) :: declaringWords rest := by
  rw [declaringWords, if_pos hword, declaringWords_cons_of_ne (by simp [hname]), List.head?_cons]

/-- Behind a place there are some of the declaring words. -/
theorem declaringWords_sublist (h : rest <:+ tokens) :
    (declaringWords rest).Sublist (declaringWords tokens) := by
  obtain ⟨front, rfl⟩ := h
  induction front with
  | nil => exact .refl _
  | cons token front ih =>
    rw [List.cons_append, declaringWords]
    split_ifs
    · exact ih.cons _
    · exact ih

/-- Nothing is declared behind a token of another kind. -/
theorem declaredTexts_cons_of_ne (h : token.kind ≠ .varWord) (rest : List Token) :
    declaredTexts (token :: rest) = declaredTexts rest := by
  rw [declaredTexts, declaringWords_cons_of_ne h, declaredTexts]

/-- Tokens of other kinds in front make no difference to what is declared. -/
theorem declaredTexts_append_of_ne (h : ∀ token ∈ front, token.kind ≠ .varWord)
    (rest : List Token) : declaredTexts (front ++ rest) = declaredTexts rest := by
  rw [declaredTexts, declaringWords_append_of_ne h, declaredTexts]

/-- A declaring word in front of a name declares it. -/
theorem declaredTexts_declaration (hword : word.kind = .varWord) (hname : name.kind = .name)
    (rest : List Token) :
    declaredTexts (word :: name :: rest) =
      (some name.text, (word.line : Int) - 1) :: declaredTexts rest := by
  rw [declaredTexts, declaringWords_declaration hword hname]
  rfl

/-- The names declared in the last tokens are among those declared in all of them, in order. -/
theorem declaredNames_sublist (h : rest <:+ tokens) :
    (declaredNames rest).Sublist (declaredNames tokens) :=
  (declaringWords_sublist h).filterMap _

/-- A declaring word in front of a name adds the name to those declared behind. -/
theorem declaredNames_declaration (hword : word.kind = .varWord) (hname : name.kind = .name)
    (rest : List Token) :
    declaredNames (word :: name :: rest) =
      (name.text, (word.line : Int) - 1) :: declaredNames rest := by
  rw [declaredNames, declaringWords_declaration hword hname]
  simp [declaredNames, hname]

end Token

/-! ## Declarations in trees -/

namespace Editor

/-- The name of a declaration and its line, counted from zero, as its symbol shows them. -/
def Declaration.entry (declaration : Declaration) : String × Int :=
  (declaration.name, declaration.line.getD 1 - 1)

/-- The entries of the declarations in a statement. -/
def entriesIn (node : Node) : List (String × Int) := (declarationsIn node).map Declaration.entry

/-- The entries of the declarations in statements. -/
def entriesOf (nodes : List Node) : List (String × Int) :=
  (declarationsOf nodes).map Declaration.entry

/-- The entries of the first statement come first. -/
theorem entriesOf_cons (first : Node) (rest : List Node) :
    entriesOf (first :: rest) = entriesIn first ++ entriesOf rest := by
  simp [entriesOf, entriesIn, declarationsOf]

/-- The entries of statements are those of each of them, in order. -/
theorem entriesOf_eq_flatMap (nodes : List Node) : entriesOf nodes = nodes.flatMap entriesIn := by
  induction nodes with
  | nil => rfl
  | cons first rest ih => rw [entriesOf_cons, ih, List.flatMap_cons]

/-- The entries of the first branch come before those of the second one. -/
theorem entriesIn_ifElse (condition thenBranch elseBranch : Node) (line : SourceLine) :
    entriesIn (.ifElse condition thenBranch elseBranch line) =
      entriesIn thenBranch ++ entriesIn elseBranch := by
  simp [entriesIn, declarationsIn]

end Editor

open Editor Token

namespace Grammar

/-! ## In a derivation -/

/-- Nothing is declared in an expression. In front of any other tokens, the declaring words of a
statement say what is declared in its tree. -/
def Derivation.Declares : {s : Symbol} → Derivation s → Prop
  | .operand _, d | .rest _, d | .expression, d => ∀ token ∈ d.tokens, token.kind ≠ .varWord
  | .statement, d | .declaration, d => ∀ rest : List Token,
    declaredTexts (d.tokens ++ rest) =
      (entriesIn d.tree).map (Prod.map some id) ++ declaredTexts rest
  | .declarations, d => ∀ rest : List Token,
    declaredTexts (d.tokens ++ rest) =
      (entriesOf d.tree).map (Prod.map some id) ++ declaredTexts rest

/-- A token that the grammar requires declares nothing, unless it is the declaring word. -/
theorem declaredTexts_terminal {kind : Token.Kind} (token : Terminal kind)
    (h : kind ≠ .varWord) (rest : List Token) :
    declaredTexts (token.val :: rest) = declaredTexts rest :=
  declaredTexts_cons_of_ne (by rwa [token.property]) rest

/-- In all that the grammar derives, the declaring words say what is declared. -/
theorem Derivation.declares {s : Symbol} (d : Derivation s) : d.Declares := by
  induction d with
  | literal token | reference token => simp [Declares, token.property]
  | group opening inner closing ih =>
    simp only [Declares, tokens, List.forall_mem_cons, List.forall_mem_append] at ih ⊢
    exact ⟨by simp [opening.property], ih, by simp [closing.property]⟩
  | chain first more ihfirst ihmore =>
    simp only [Declares, tokens, List.forall_mem_append] at ihfirst ihmore ⊢
    exact ⟨ihfirst, ihmore⟩
  | done => simp [Declares]
  | operation sign op hsign operand more ihoperand ihmore =>
    simp only [Declares, tokens, List.forall_mem_cons, List.forall_mem_append] at ihoperand ihmore ⊢
    refine ⟨?_, ihoperand, ihmore⟩
    rw [kind_eq_of_operatorAt? hsign]
    cases op <;> decide
  | plain equality ih => exact ih
  | assign target mark value ihtarget ihvalue =>
    simp only [Declares, tokens, List.forall_mem_cons, List.forall_mem_append] at ihtarget ihvalue ⊢
    exact ⟨ihtarget, by simp [mark.property], ihvalue⟩
  | print word value semicolon ih =>
    intro rest
    rw [tokens, List.cons_append, List.append_assoc, List.singleton_append,
      declaredTexts_terminal word (by decide), declaredTexts_append_of_ne ih,
      declaredTexts_terminal semicolon (by decide)]
    rfl
  | evaluate value semicolon ih =>
    intro rest
    rw [tokens, List.append_assoc, List.singleton_append, declaredTexts_append_of_ne ih,
      declaredTexts_terminal semicolon (by decide)]
    rfl
  | ifThen word opening condition closing thenBranch ihcondition ihthen =>
    intro rest
    rw [tokens, List.cons_append, List.cons_append, List.append_assoc, List.cons_append,
      declaredTexts_terminal word (by decide), declaredTexts_terminal opening (by decide),
      declaredTexts_append_of_ne ihcondition, declaredTexts_terminal closing (by decide)]
    exact ihthen rest
  | ifElse word opening condition closing thenBranch otherwise elseBranch ihcondition ihthen
      ihelse =>
    intro rest
    rw [tokens, List.cons_append, List.cons_append, List.append_assoc, List.cons_append,
      List.append_assoc, List.cons_append,
      declaredTexts_terminal word (by decide), declaredTexts_terminal opening (by decide),
      declaredTexts_append_of_ne ihcondition, declaredTexts_terminal closing (by decide),
      ihthen, declaredTexts_terminal otherwise (by decide), ihelse]
    rw [tree, entriesIn_ifElse, List.map_append, List.append_assoc]
  | loop word opening condition closing body ihcondition ihbody =>
    intro rest
    rw [tokens, List.cons_append, List.cons_append, List.append_assoc, List.cons_append,
      declaredTexts_terminal word (by decide), declaredTexts_terminal opening (by decide),
      declaredTexts_append_of_ne ihcondition, declaredTexts_terminal closing (by decide)]
    exact ihbody rest
  | block opening inner closing ih =>
    intro rest
    rw [tokens, List.cons_append, List.append_assoc, List.singleton_append,
      declaredTexts_terminal opening (by decide), ih, declaredTexts_terminal closing (by decide)]
    rfl
  | declare word name semicolon =>
    intro rest
    rw [tokens, List.cons_append, List.cons_append, List.singleton_append,
      declaredTexts_declaration word.property name.property,
      declaredTexts_terminal semicolon (by decide)]
    rfl
  | define word name mark initial semicolon ih =>
    intro rest
    rw [tokens, List.cons_append, List.cons_append, List.cons_append, List.append_assoc,
      List.singleton_append, declaredTexts_declaration word.property name.property,
      declaredTexts_terminal mark (by decide), declaredTexts_append_of_ne ih,
      declaredTexts_terminal semicolon (by decide)]
    rfl
  | statement inner ih => exact ih
  | empty => exact fun rest => rfl
  | next first more ihfirst ihmore =>
    intro rest
    rw [tokens, List.append_assoc, ihfirst, ihmore, tree, entriesOf_cons, List.map_append,
      List.append_assoc]

/-! ## In what was read -/

/-- The entries of the declarations in what was read. -/
def Yield.entries : Yield → List (String × Int)
  | .statement node | .declaration node => entriesIn node
  | .declarations _ nodes => entriesOf nodes

/-- What was read declares names behind declaring words that were passed, in their order. -/
theorem Reads.entries_sublist {levels : Nat} {c c' : Cursor} {yield : Yield}
    (hreads : Reads levels c yield c') :
    (yield.entries ++ declaredNames c'.ahead).Sublist (declaredNames c.ahead) := by
  induction hreads with
  | print word semicolon hword hvalue hend =>
    exact declaredNames_sublist (suffix_around_expression hword hvalue hend)
  | evaluate semicolon _ hvalue hend =>
    exact declaredNames_sublist ((suffix_of_moves hend).trans (suffix_of_outcome_expression hvalue))
  | declare word name semicolon hmoves =>
    rw [hmoves.ahead, List.cons_append, List.cons_append,
      declaredNames_declaration word.property name.property]
    exact (declaredNames_sublist (List.suffix_cons _ _)).cons_cons _
  | define word name mark semicolon hstart hinitial hend =>
    rw [hstart.ahead, List.cons_append, List.cons_append,
      declaredNames_declaration word.property name.property]
    refine (declaredNames_sublist ?_).cons_cons _
    exact (suffix_of_moves hend).trans
      ((suffix_of_outcome_expression hinitial).trans (List.suffix_cons _ _))
  | plain _ _ ih => exact ih
  | ifThen word opening closing hstart hcondition hclosing _ ihthen =>
    exact ihthen.trans
      (declaredNames_sublist (suffix_around_expression hstart hcondition hclosing))
  | ifElse word opening closing _ hstart hcondition hclosing _ _ hmiddle _ ihthen ihelse =>
    have hfront := declaredNames_sublist (suffix_around_expression hstart hcondition hclosing)
    have hother := ihelse.trans (declaredNames_sublist (suffix_of_moves hmiddle))
    rw [Yield.entries, entriesIn_ifElse, List.append_assoc]
    exact ((hother.append_left _).trans ihthen).trans hfront
  | loop word opening closing hstart hcondition hclosing _ ihbody =>
    exact ihbody.trans
      (declaredNames_sublist (suffix_around_expression hstart hcondition hclosing))
  | block opening closing hfirst _ hlast ihinner =>
    have hrest := declaredNames_sublist (suffix_of_moves hlast)
    exact ((hrest.append_left _).trans ihinner).trans
      (declaredNames_sublist (suffix_of_moves hfirst))
  | done => exact .refl _
  | next _ _ _ _ ihfirst ihrest =>
    rw [Yield.entries, entriesOf_cons, List.append_assoc]
    exact (ihrest.append_left _).trans ihfirst
  | giveUp _ _ hmoves _ ihrest =>
    rw [Yield.entries, entriesOf_cons]
    exact ihrest.trans (declaredNames_sublist ((suffix_recover _ _).trans (suffix_of_moves hmoves)))

end Grammar

/-! ## In a run -/

namespace Node

variable {tokens : List Token} {node : Node} {name : String}

/-- A name is used in statements if one of them uses it. -/
theorem mem_usesOf_iff {nodes : List Node} {use : Use} :
    (use, name) ∈ usesOf nodes ↔ ∃ node ∈ nodes, (use, name) ∈ node.uses := by
  induction nodes with
  | nil => simp
  | cons first rest ih => simp [ih]

/-- Nothing is declared in an expression. -/
theorem ExpressionFrom.declared_not_mem (h : node.ExpressionFrom tokens) :
    (.declared, name) ∉ node.uses := by
  induction h with
  | literal | reference => simp
  | binary _ _ _ _ ihlhs ihrhs => simp [ihlhs, ihrhs]
  | assign _ _ _ ih => simp [ih]

/-- What a statement declares is among the declarations that are collected. -/
theorem StatementFrom.exists_entry (h : node.StatementFrom tokens)
    (hdeclared : (.declared, name) ∈ node.uses) : ∃ line, (name, line) ∈ entriesIn node := by
  induction h with
  | evaluate _ hvalue | print _ hvalue => exact absurd hdeclared hvalue.declared_not_mem
  | declare other line =>
    obtain rfl : name = other := by simpa using hdeclared
    exact ⟨_, List.mem_singleton_self _⟩
  | define other line hinitial =>
    rcases List.mem_cons.mp hdeclared with heq | hmem
    · obtain rfl : name = other := by simpa using heq
      exact ⟨_, List.mem_singleton_self _⟩
    · exact absurd hmem hinitial.declared_not_mem
  | ifThen _ hcondition _ ihthen =>
    rcases List.mem_append.mp hdeclared with hmem | hmem
    · exact absurd hmem hcondition.declared_not_mem
    · exact ihthen hmem
  | ifElse _ hcondition _ _ ihthen ihelse =>
    rw [entriesIn_ifElse]
    rcases List.mem_append.mp hdeclared with hmem | hmem
    · exact absurd hmem hcondition.declared_not_mem
    · rcases List.mem_append.mp hmem with hmem | hmem
      · exact (ihthen hmem).imp fun _ => List.mem_append_left _
      · exact (ihelse hmem).imp fun _ => List.mem_append_right _
  | loop _ hcondition _ ihbody =>
    rcases List.mem_append.mp hdeclared with hmem | hmem
    · exact absurd hmem hcondition.declared_not_mem
    · exact ihbody hmem
  | @block statements line _ ih =>
    obtain ⟨inner, hinner, hmem⟩ := mem_usesOf_iff.mp hdeclared
    obtain ⟨line', hentry⟩ := ih inner hinner hmem
    have hall : (name, line') ∈ entriesOf statements := by
      rw [entriesOf_eq_flatMap]
      exact List.mem_flatMap.mpr ⟨inner, hinner, hentry⟩
    exact ⟨line', hall⟩
  | skipped => cases hdeclared

/-- Corresponding trees on the same lines declare the same, whatever the names of the texts. -/
theorem Alike.entriesIn_eq {files : Option String → Option String → Prop} {node' : Node}
    (h : node.Alike Eq files node') : entriesIn node' = entriesIn node := by
  induction h with
  | declare _ hline => rw [hline]
  | define _ _ hline => rw [hline]; rfl
  | ifThen _ _ _ _ ihthen => exact ihthen
  | ifElse _ _ _ _ _ ihthen ihelse => rw [entriesIn_ifElse, entriesIn_ifElse, ihthen, ihelse]
  | loop _ _ _ _ ihbody => exact ihbody
  | @block statements statements' _ _ hlength _ _ ih =>
    have hall : entriesOf statements' = entriesOf statements := by
      rw [entriesOf_eq_flatMap, entriesOf_eq_flatMap, List.flatMap_def, List.flatMap_def]
      congr 1
      apply List.ext_getElem
      · rw [List.length_map, List.length_map, hlength]
      · intro i h h'
        rw [List.getElem_map, List.getElem_map]
        exact ih i _ _
    exact hall
  | _ => rfl

end Node

namespace Program

/-- A program under another name has the same errors and the same declarations. -/
theorem ofTokens_renamed (file file' : Option String) (tokens : TokenList) :
    (ofTokens file' tokens).errors = (ofTokens file tokens).errors ∧
      entriesOf (ofTokens file' tokens).statements =
        entriesOf (ofTokens file tokens).statements := by
  have hstart : (Cursor.start file tokens).Alike Eq (fun _ _ => True) 0 []
      (Cursor.start file' tokens) :=
    ⟨trivial, rfl, List.forall₂_same.mpr fun _ _ => ⟨rfl, rfl, rfl⟩, rfl, [], rfl, .nil⟩
  obtain ⟨hnodes, hend⟩ := Grammar.alike_program hstart
  obtain ⟨later, hlater, hpairs⟩ := hend.errors
  rw [List.nil_append] at hlater
  constructor
  · rw [errors_ofTokens, errors_ofTokens, hlater, eq_map_moved_of_forall₂ hpairs]
    exact List.map_id _
  · rw [statements_ofTokens, statements_ofTokens, entriesOf_eq_flatMap, entriesOf_eq_flatMap,
      List.flatMap_def, List.flatMap_def]
    congr 1
    rw [← List.forall₂_eq_eq_eq, List.forall₂_map_left_iff, List.forall₂_map_right_iff]
    exact hnodes.flip.imp fun _ _ hnode => hnode.entriesIn_eq

end Program

namespace Editor

open Program

variable {text : String} {tokens : TokenList} {file : Option String}

/-- The symbols of a text are the declarations of its program under any name. -/
theorem map_symbols (h : TokenList.ofText text = .ok tokens) (room : Headroom) (uri : String)
    (file : Option String) :
    (symbols room uri text).map (fun symbol => (symbol.name, symbol.line)) =
      entriesOf (ofTokens file tokens).statements := by
  rw [← (ofTokens_renamed file (some uri) tokens).2]
  simp only [symbols, ofText_of_tokens (some uri) h, List.map_map]
  rfl

/-- In a program without errors the declaring words say what is declared. -/
theorem declaredTexts_of_errors_eq_nil (h : (ofTokens file tokens).errors = []) :
    declaredTexts tokens.tokens =
      (entriesOf (ofTokens file tokens).statements).map (Prod.map some id) := by
  obtain ⟨d, -, htokens, htree⟩ := exists_derivation_of_errors_eq_nil h
  have hdeclares : declaredTexts (d.tokens ++ []) =
      (entriesOf d.tree).map (Prod.map some id) ++ declaredTexts [] := d.declares []
  rw [List.append_nil, htokens, htree] at hdeclares
  exact hdeclares.trans (List.append_nil _)

/-- What statements bind that were given no variables is a symbol of the text, or it was assigned
to. -/
theorem symbol_or_assigned (h : TokenList.ofText text = .ok tokens) (room : Headroom)
    (uri : String) {fuel : Nat} {room' : Headroom} {name : String}
    (hname : name ∈ Node.varsAll fuel room' (ofTokens file tokens).statements ⟨∅, #[]⟩) :
    (∃ symbol ∈ symbols room uri text, symbol.name = name) ∨
      (.assigned, name) ∈ Node.usesOf (ofTokens file tokens).statements := by
  have hframed := Node.framedBy_varsAll fuel room' (ofTokens file tokens).statements ⟨∅, #[]⟩
  rcases hframed.new name hname (by simp) with hassigned | hdeclared
  · exact .inr hassigned
  · obtain ⟨c', hreads⟩ := reads_ofTokens file tokens
    have hfrom := hreads.yieldFrom (List.suffix_refl _)
    obtain ⟨node, hnode, hmem⟩ := Node.mem_usesOf_iff.mp hdeclared
    obtain ⟨line, hentry⟩ := (hfrom node hnode).exists_entry hmem
    have hsymbol :
        (name, line) ∈ (symbols room uri text).map fun symbol => (symbol.name, symbol.line) := by
      rw [map_symbols h room uri file, entriesOf_eq_flatMap]
      exact List.mem_flatMap.mpr ⟨node, hnode, hentry⟩
    obtain ⟨symbol, hin, heq⟩ := List.mem_map.mp hsymbol
    exact .inl ⟨symbol, hin, congrArg Prod.fst heq⟩

/-- The symbols of a text agree with its tokens and with its runs. Without errors there is one
symbol for each declaring word, in order, with the text of the token behind the word and with its
line. With errors or without, the symbols are some of the names directly behind declaring words, in
order. Each name that a run on no variables has bound, at any moment and at its end, is that of a
symbol or the target of an assignment. How deep the walks may go does not matter, neither for the
symbols nor for the run. -/
theorem symbols_match_declarations {program : Program} (h : Program.ofText file text = .ok program)
    (room : Headroom) (uri : String) :
    (program.errors = [] →
      (symbols room uri text).map (fun symbol => (some symbol.name, symbol.line)) =
        declaredTexts program.tokens.tokens) ∧
    ((symbols room uri text).map fun symbol => (symbol.name, symbol.line)).Sublist
      (declaredNames program.tokens.tokens) ∧
    (∀ fuel room' name, name ∈ Node.varsAll fuel room' program.statements ⟨∅, #[]⟩ →
      (∃ symbol ∈ symbols room uri text, symbol.name = name) ∨
        (.assigned, name) ∈ Node.usesOf program.statements) ∧
    ∀ host room' fuel debug run,
      (Session.fresh room' host).runText fuel file text debug = some run →
      ∀ name ∈ run.session.vars, (∃ symbol ∈ symbols room uri text, symbol.name = name) ∨
        (.assigned, name) ∈ Node.usesOf program.statements := by
  obtain ⟨tokens, htokens, rfl⟩ := exists_tokens_of_ofText h
  refine ⟨?_, ?_, ?_, ?_⟩
  · intro herrors
    have hwords := declaredTexts_of_errors_eq_nil herrors
    rw [← map_symbols htokens room uri file, List.map_map] at hwords
    exact hwords.symm
  · obtain ⟨c', hreads⟩ := reads_ofTokens file tokens
    rw [map_symbols htokens room uri file]
    exact (List.sublist_append_left _ _).trans hreads.entries_sublist
  · intro fuel room' name hname
    exact symbol_or_assigned htokens room uri hname
  · intro host room' fuel debug run hrun name hname
    rw [Session.runText_of_ofText htokens, Option.map_eq_some_iff] at hrun
    obtain ⟨⟨result, machine⟩, hout, rfl⟩ := hrun
    have hvars : Node.varsAll fuel room' (ofTokens file tokens).statements ⟨∅, #[]⟩ =
        machine.vars := Node.varsAll_of_outcome hout
    have hmem : name ∈ machine.vars := hname
    rw [← hvars] at hmem
    exact symbol_or_assigned htokens room uri hmem

/-- A text with declarations in both branches of a conditional. -/
def branching : String := "var a;\nif (a) \x7b var b = a; \x7d else \x7b\nvar c; \x7d"

/-- A text with a malformed statement in one block, and with another block that is not closed. -/
def unclosed : String := "var a;\n\x7b var b; print ; \x7d c = a;\n\x7b var d;"

/-- The tokens of `unclosed`. -/
def unclosedTokens : TokenList :=
  ⟨[⟨.varWord, "var", 1⟩, ⟨.name, "a", 1⟩, ⟨.semicolon, ";", 1⟩, ⟨.openBrace, "\x7b", 2⟩,
    ⟨.varWord, "var", 2⟩, ⟨.name, "b", 2⟩, ⟨.semicolon, ";", 2⟩, ⟨.printWord, "print", 2⟩,
    ⟨.semicolon, ";", 2⟩, ⟨.closeBrace, "\x7d", 2⟩, ⟨.name, "c", 2⟩, ⟨.assign, "=", 2⟩,
    ⟨.name, "a", 2⟩, ⟨.semicolon, ";", 2⟩, ⟨.openBrace, "\x7b", 3⟩, ⟨.varWord, "var", 3⟩,
    ⟨.name, "d", 3⟩, ⟨.semicolon, ";", 3⟩], 3⟩

/-- The one text has a symbol for each word. In the other one a block keeps its declaration where a
statement in it is given up, and loses it where the block is, and a run binds `c`, which has no
symbol, by an assignment. -/
theorem symbols_match_declarations_unclosed :
    (∃ program, Program.ofText none branching = .ok program ∧ program.errors = [] ∧
      (symbols .standard "uri" branching).map (fun symbol => (some symbol.name, symbol.line)) =
        declaredTexts program.tokens.tokens) ∧
    ∃ program run, Program.ofText none unclosed = .ok program ∧
      (symbols .standard "uri" unclosed).map (fun symbol => (symbol.name, symbol.line)) =
        [("a", 0), ("b", 1)] ∧
      declaredNames program.tokens.tokens = [("a", 0), ("b", 1), ("d", 2)] ∧
      ((symbols .standard "uri" unclosed).map fun symbol => (symbol.name, symbol.line)).Sublist
        (declaredNames program.tokens.tokens) ∧
      (Session.fresh .standard none).runText 3 none unclosed false = some run ∧
      "c" ∈ run.session.vars ∧
      ((∃ symbol ∈ symbols .standard "uri" unclosed, symbol.name = "c") ∨
        (.assigned, "c") ∈ Node.usesOf program.statements) := by
  constructor
  · have hmap : (Program.ofText none branching).map Program.errors = .ok [] := by decide +kernel
    cases hprogram : Program.ofText none branching with
    | error stray => simp [hprogram, Except.map] at hmap
    | ok program =>
      have herrors : program.errors = [] := by simpa [hprogram, Except.map] using hmap
      exact ⟨program, rfl, herrors, (symbols_match_declarations hprogram .standard "uri").1 herrors⟩
  · have htokens : TokenList.ofText unclosed = .ok unclosedTokens := by decide +kernel
    have hprogram := ofText_of_tokens none htokens
    obtain ⟨-, hsublist, -, hbound⟩ :=
      symbols_match_declarations hprogram .standard "uri"
    have hout : Exec.outcome (Node.execAll 3 (Session.fresh .standard none).room
          (ofTokens none unclosedTokens).statements)
        ⟨(Session.fresh .standard none).vars, #[]⟩ =
          some (.ok (), ⟨(((∅ : Variables).insert "a" .null).insert "b" .null).insert "c" .null,
            #[]⟩) := rfl
    obtain ⟨run, hrun, hvars⟩ : ∃ run,
        (Session.fresh .standard none).runText 3 none unclosed false = some run ∧
          "c" ∈ run.session.vars := by
      rw [Session.runText_of_ofText htokens, hout]
      exact ⟨_, rfl, by simp⟩
    exact ⟨_, run, hprogram, by decide +kernel, by decide +kernel, hsublist, hrun, hvars,
      hbound none .standard 3 false run hrun "c" hvars⟩

end Editor

end ScriptKit
