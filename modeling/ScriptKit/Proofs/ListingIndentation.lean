import ScriptKit.Proofs.ListingUnambiguous
import ScriptKit.Proofs.Markers
import ScriptKit.Proofs.Messages

/-!
# Indentation of listings

A listing with an indentation is the listing without one, moved to the right: the same blanks stand
in front of every row, and nothing else is different. This holds of every statement of a program
that was read, also where markers stand in it.

A listing is written here a second time, as a list of rows that know their own level. The margin is
added to each of them in the end, so that the shift can be seen, while `Node.listing` puts margins
where the rows begin, in each kind of statement anew. What is left to show is that the rows of the
list are the rows of the text, which they are because none of them has a line feed in it: names and
numbers of a program have none, and the messages of its markers are one line each.
-/

set_option autoImplicit false

namespace ScriptKit

open Grammar Token

/-! ## Rows of a text -/

namespace Text

/-- The rows of a text: what stands between its line feeds. -/
def rows (text : String) : List String := (text.toList.splitOn '\n').map String.ofList

/-- The text with that many blanks inserted at the beginning of every row. -/
def indented (width : Nat) (text : String) : String :=
  "\n".intercalate ((rows text).map (String.ofList (List.replicate width ' ') ++ ·))

/-- Texts of one line each that are put below each other are the rows of what results. -/
theorem rows_intercalate {texts : List String} (hne : texts ≠ [])
    (h : ∀ text ∈ texts, OneLine text) : rows ("\n".intercalate texts) = texts := by
  have hchars : ("\n".intercalate texts).toList.splitOn '\n' = texts.map String.toList := by
    rw [String.toList_intercalate]
    exact List.splitOn_intercalate '\n' (List.forall_mem_map.mpr h) (by simpa using hne)
  rw [rows, hchars]
  simp

end Text

/-! ## Rows of a listing -/

namespace Listing

/-- A row of the listing of a statement: how many levels further in it stands than the statement,
and what stands there. -/
structure Row where
  level : Nat
  text : String

namespace Row

/-- The row one level further in. -/
def deeper (row : Row) : Row := ⟨row.level + 1, row.text⟩

/-- The row behind its margin. -/
def written (indent : Int) (row : Row) : String := Node.margin (indent + row.level) ++ row.text

variable (indent : Int) (row : Row)

/-- A row one level further in is written as with one more indentation. -/
theorem written_deeper : row.deeper.written indent = row.written (indent + 1) := by
  have hlevel : indent + (row.level + 1 : Nat) = indent + 1 + row.level := by omega
  rw [written, written, deeper, hlevel]

/-- A row of the outermost level is written behind the margin. -/
theorem written_outermost (text : String) :
    written indent ⟨0, text⟩ = Node.margin indent ++ text := by
  simp [written]

/-- The indentation puts blanks in front of the row. -/
theorem written_natCast (n : Nat) :
    row.written n = String.ofList (List.replicate (2 * n) ' ') ++ row.written 0 := by
  have hwidth : (2 * ((n : Int) + row.level)).toNat = 2 * n + 2 * row.level := by omega
  have hwidth' : (2 * ((0 : Int) + row.level)).toNat = 2 * row.level := by omega
  rw [written, written, Node.margin, Node.margin, hwidth, hwidth', List.replicate_add,
    String.ofList_append, String.append_assoc]

variable {row}

/-- A row with a text on it is not written as nothing. -/
theorem written_ne_empty (h : row.text ≠ "") : row.written indent ≠ "" := by
  simp [written, h]

/-- There is no line feed in the margin. -/
theorem oneLine_margin : OneLine (Node.margin indent) := by
  simp [OneLine, Node.margin]

/-- There is no line feed in a written row if there is none in its text. -/
theorem oneLine_written (h : OneLine row.text) : OneLine (row.written indent) :=
  oneLine_append.mpr ⟨oneLine_margin _, h⟩

end Row

/-- Rows below each other. -/
def joined (indent : Int) (rows : List Row) : String :=
  "\n".intercalate (rows.map (·.written indent))

/-- Rows in braces. The braces stand on one row if there is nothing between them. -/
def bracedRows (rows : List Row) : List Row :=
  if rows = [] then [⟨0, "\x7b\x7d"⟩]
  else ⟨0, "\x7b"⟩ :: (rows.map .deeper ++ [⟨0, "\x7d"⟩])

section Joined

variable (indent : Int) {rows rows' : List Row}

/-- A single row of the outermost level is written behind the margin. -/
theorem joined_outermost (text : String) :
    joined indent [⟨0, text⟩] = Node.margin indent ++ text := by
  rw [joined, List.map_singleton, String.intercalate_singleton, Row.written_outermost]

/-- Rows below other ones are written behind a line feed. -/
theorem joined_append (h : rows ≠ []) (h' : rows' ≠ []) :
    joined indent (rows ++ rows') = joined indent rows ++ "\n" ++ joined indent rows' := by
  rw [joined, List.map_append]
  exact String.intercalate_append_of_ne_nil (by simpa using h) (by simpa using h')

/-- Rows one level further in are written as with one more indentation. -/
theorem joined_deeper : joined indent (rows.map .deeper) = joined (indent + 1) rows := by
  rw [joined, joined, List.map_map]
  exact congrArg _ (List.map_congr_left fun row _ => row.written_deeper indent)

/-- Rows one level further in below a heading. -/
theorem joined_heading (text : String) (h : rows ≠ []) :
    joined indent (⟨0, text⟩ :: rows.map .deeper) =
      Node.margin indent ++ text ++ "\n" ++ joined (indent + 1) rows := by
  rw [← List.singleton_append, joined_append indent (List.cons_ne_nil _ _) (by simpa using h),
    joined_outermost, joined_deeper]

/-- Where something stands on each row, the text is not empty. -/
theorem joined_ne_empty (hne : rows ≠ []) (h : ∀ row ∈ rows, row.text ≠ "") :
    joined indent rows ≠ "" := by
  obtain ⟨first, rest, rfl⟩ := List.exists_cons_of_ne_nil hne
  have hfirst := Row.written_ne_empty indent (h first List.mem_cons_self)
  rw [joined, List.map_cons]
  cases rest with
  | nil => simpa using hfirst
  | cons second rest => simp

/-- Rows in braces are written one level further in, between the rows of the braces. -/
theorem joined_bracedRows (h : rows ≠ []) :
    joined indent (bracedRows rows) = Node.margin indent ++ "\x7b\n" ++ joined (indent + 1) rows ++
      "\n" ++ Node.margin indent ++ "\x7d" := by
  have hhead : (⟨0, "\x7b"⟩ :: rows.map Row.deeper : List Row) ≠ [] := List.cons_ne_nil _ _
  rw [bracedRows, if_neg h, ← List.cons_append,
    joined_append indent hhead (List.cons_ne_nil _ _), joined_heading indent _ h, joined_outermost]
  simp [String.append_assoc]

/-- There are always rows where there are braces. -/
theorem bracedRows_ne_nil (rows : List Row) : bracedRows rows ≠ [] := by
  rw [bracedRows]
  split_ifs <;> exact List.cons_ne_nil _ _

/-- What holds of a heading and of the rows below it holds of all rows. -/
theorem forall_mem_heading {P : Row → Prop} {text : String} (hheading : P ⟨0, text⟩)
    (h : ∀ row ∈ rows, P row.deeper) : ∀ row ∈ ⟨0, text⟩ :: rows.map Row.deeper, P row :=
  List.forall_mem_cons.mpr ⟨hheading, List.forall_mem_map.mpr h⟩

/-- What holds of braces and of the rows between them holds of all rows. -/
theorem forall_mem_bracedRows {P : Row → Prop} (hempty : P ⟨0, "\x7b\x7d"⟩)
    (hopen : P ⟨0, "\x7b"⟩) (hclose : P ⟨0, "\x7d"⟩) (h : ∀ row ∈ rows, P row.deeper) :
    ∀ row ∈ bracedRows rows, P row := by
  rw [bracedRows]
  split_ifs
  · simpa using hempty
  · rw [← List.cons_append, List.forall_mem_append]
    exact ⟨forall_mem_heading hopen h, by simpa using hclose⟩

end Joined

end Listing

namespace Node

open Listing

mutual

/-- The rows of a statement. A statement that governs no other one is a single row. -/
@[simp] def rows : Node → List Row
  | ifThen condition thenBranch _ =>
    ⟨0, "if " ++ condition.listing 0⟩ :: thenBranch.rows.map .deeper
  | ifElse condition thenBranch elseBranch _ =>
    ⟨0, "if " ++ condition.listing 0⟩ :: thenBranch.rows.map .deeper ++
      ⟨0, "else"⟩ :: elseBranch.rows.map .deeper
  | loop condition body _ => ⟨0, "while " ++ condition.listing 0⟩ :: body.rows.map .deeper
  | block statements _ => bracedRows (rowsOf statements)
  | other => [⟨0, other.listing 0⟩]

/-- The rows of statements below each other. -/
@[simp] def rowsOf : List Node → List Row
  | [] => []
  | first :: rest => first.rows ++ rowsOf rest

end

/-- A statement has at least one row. -/
theorem rows_ne_nil (node : Node) : node.rows ≠ [] := by
  cases node with
  | block statements line =>
    rw [rows]
    exact bracedRows_ne_nil _
  | _ => simp

/-- The rows of statements are those of each of them, in order. -/
theorem rowsOf_eq_flatMap (nodes : List Node) : rowsOf nodes = nodes.flatMap rows := by
  induction nodes with
  | nil => rfl
  | cons first rest ih => rw [rowsOf, ih, List.flatMap_cons]

/-- The rows of a part are among those of the statement, one level further in. -/
theorem deeper_mem_rows {statement part : Node} (hpart : part ∈ statement.governed) {row : Row}
    (hrow : row ∈ part.rows) : row.deeper ∈ statement.rows := by
  have hdeeper : row.deeper ∈ part.rows.map Row.deeper := List.mem_map_of_mem hrow
  cases statement with
  | ifThen condition thenBranch line =>
    obtain rfl := List.mem_singleton.mp hpart
    exact List.mem_cons_of_mem _ hdeeper
  | loop condition body line =>
    obtain rfl := List.mem_singleton.mp hpart
    exact List.mem_cons_of_mem _ hdeeper
  | ifElse condition thenBranch elseBranch line =>
    rw [rows, List.mem_append]
    rcases List.mem_pair.mp hpart with rfl | rfl
    · exact .inl (List.mem_cons_of_mem _ hdeeper)
    · exact .inr (List.mem_cons_of_mem _ hdeeper)
  | block statements line =>
    have hmem : row ∈ rowsOf statements := by
      rw [rowsOf_eq_flatMap]
      exact List.mem_flatMap.mpr ⟨part, hpart, hrow⟩
    rw [rows, bracedRows, if_neg (List.ne_nil_of_mem hmem)]
    exact List.mem_cons_of_mem _ (List.mem_append_left _ (List.mem_map_of_mem hmem))
  | _ => cases hpart

/-! ## Listings row by row -/

/-- The listing of the statement is that of its rows, for any indentation, and there is something
on each of them. -/
structure ListedInRows (statement : Node) : Prop where
  listing_eq : ∀ indent, statement.listing indent = joined indent statement.rows
  text_ne_empty : ∀ row ∈ statement.rows, row.text ≠ ""

section ListedInRows

variable {condition thenBranch elseBranch : Node} {statements : List Node}

/-- A statement on a single row. -/
theorem listedInRows_single {statement : Node} (text : String)
    (hrows : statement.rows = [⟨0, statement.listing 0⟩])
    (hlisting : ∀ indent, statement.listing indent = margin indent ++ text) (hne : text ≠ "") :
    statement.ListedInRows := by
  have htext : statement.listing 0 = text := by
    rw [hlisting]
    exact String.empty_append
  rw [htext] at hrows
  refine ⟨fun indent => ?_, ?_⟩
  · rw [hlisting, hrows, joined_outermost]
  · simpa [hrows] using hne

/-- A heading with one part below it. -/
theorem listedInRows_heading {statement part : Node} (heading : String) (hpart : part.ListedInRows)
    (hrows : statement.rows = ⟨0, heading⟩ :: part.rows.map .deeper)
    (hlisting : ∀ indent, statement.listing indent =
      margin indent ++ heading ++ "\n" ++ part.listing (indent + 1))
    (hne : heading ≠ "") : statement.ListedInRows := by
  refine ⟨fun indent => ?_, ?_⟩
  · rw [hlisting, hrows, joined_heading indent _ part.rows_ne_nil, hpart.listing_eq]
  · rw [hrows]
    exact forall_mem_heading hne hpart.text_ne_empty

/-- A conditional is listed in rows if both its branches are. -/
theorem listedInRows_ifElse (hthen : thenBranch.ListedInRows) (helse : elseBranch.ListedInRows)
    (line : SourceLine) : (ifElse condition thenBranch elseBranch line).ListedInRows := by
  refine ⟨fun indent => ?_, ?_⟩
  · rw [listing_ifElse, rows,
      joined_append indent (List.cons_ne_nil _ _) (List.cons_ne_nil _ _),
      joined_heading indent _ thenBranch.rows_ne_nil,
      joined_heading indent _ elseBranch.rows_ne_nil, hthen.listing_eq, helse.listing_eq]
    simp [String.append_assoc]
  · rw [rows, List.forall_mem_append]
    exact ⟨forall_mem_heading (by simp) hthen.text_ne_empty,
      forall_mem_heading (by simp) helse.text_ne_empty⟩

/-- The listings of statements below each other. -/
theorem intercalate_listings (h : ∀ statement ∈ statements, statement.ListedInRows)
    (indent : Int) :
    "\n".intercalate (statements.map (listing indent)) = joined indent (rowsOf statements) := by
  induction statements with
  | nil => rfl
  | cons first rest ih =>
    rw [List.forall_mem_cons] at h
    cases rest with
    | nil => simpa using h.1.listing_eq indent
    | cons second rest =>
      have hrest : rowsOf (second :: rest) ≠ [] := by simp [second.rows_ne_nil]
      rw [rowsOf, joined_append indent first.rows_ne_nil hrest, ← ih h.2, ← h.1.listing_eq]
      exact String.intercalate_cons_cons

/-- A block is listed in rows if all its statements are. -/
theorem listedInRows_block (h : ∀ statement ∈ statements, statement.ListedInRows)
    (line : SourceLine) : (block statements line).ListedInRows := by
  have htexts : ∀ row ∈ rowsOf statements, row.text ≠ "" := by
    rw [rowsOf_eq_flatMap]
    intro row hmem
    obtain ⟨statement, hstatement, hrow⟩ := List.mem_flatMap.mp hmem
    exact (h statement hstatement).text_ne_empty row hrow
  refine ⟨fun indent => ?_, ?_⟩
  · rw [listing_block, Node.braced, intercalate_listings h, rows]
    by_cases hrows : rowsOf statements = []
    · -- There is no statement, so there is no row.
      rw [hrows, bracedRows, if_pos rfl, joined_outermost]
      rfl
    · have hne := joined_ne_empty (indent + 1) hrows htexts
      rw [if_neg (by simpa using hne), joined_bracedRows indent hrows]
  · rw [rows]
    exact forall_mem_bracedRows (by decide) (by decide) (by decide) htexts

end ListedInRows

/-- Every statement of a tree that was read is listed row by row. -/
theorem StatementFrom.listedInRows {tokens : List Token} {statement : Node}
    (h : statement.StatementFrom tokens) : statement.ListedInRows := by
  induction h with
  | @evaluate value line _ =>
    refine listedInRows_single (value.listing 0 ++ ";") rfl (fun indent => ?_) (by simp)
    simp [listing_evaluate, String.append_assoc]
  | @print value line _ =>
    refine listedInRows_single ("print " ++ value.listing 0 ++ ";") rfl (fun indent => ?_) (by simp)
    simp [listing_print, String.append_assoc]
  | declare name line =>
    refine listedInRows_single ("var " ++ name ++ ";") rfl (fun indent => ?_) (by simp)
    simp [listing_declare, String.append_assoc]
  | @define name initial line _ =>
    refine listedInRows_single ("var " ++ name ++ " = " ++ initial.listing 0 ++ ";") rfl
      (fun indent => ?_) (by simp)
    simp [listing_define, String.append_assoc]
  | skipped message line =>
    refine listedInRows_single ("<skipped: " ++ message ++ ">") rfl (fun indent => ?_) (by simp)
    simp [listing_skipped, String.append_assoc]
  | @ifThen condition thenBranch line _ _ ihthen =>
    refine listedInRows_heading ("if " ++ condition.listing 0) ihthen rfl (fun indent => ?_)
      (by simp)
    simp [listing_ifThen, String.append_assoc]
  | ifElse line _ _ _ ihthen ihelse => exact listedInRows_ifElse ihthen ihelse line
  | @loop condition body line _ _ ihbody =>
    refine listedInRows_heading ("while " ++ condition.listing 0) ihbody rfl (fun indent => ?_)
      (by simp)
    simp [listing_loop, String.append_assoc]
  | block line _ ih => exact listedInRows_block ih line

/-- What a statement governs is read from the same tokens. -/
theorem StatementFrom.of_mem_governed {tokens : List Token} {statement part : Node}
    (h : statement.StatementFrom tokens) (hmem : part ∈ statement.governed) :
    part.StatementFrom tokens := by
  cases h with
  | ifThen _ _ hthen =>
    obtain rfl := List.mem_singleton.mp hmem
    exact hthen
  | ifElse _ _ hthen helse =>
    rcases List.mem_pair.mp hmem with rfl | rfl
    · exact hthen
    · exact helse
  | loop _ _ hbody =>
    obtain rfl := List.mem_singleton.mp hmem
    exact hbody
  | block _ h => exact h part hmem
  | _ => cases hmem

/-- A statement whose rows have no line feed in them is moved to the right as a whole. -/
theorem ListedInRows.listing_natCast {statement : Node} (h : statement.ListedInRows)
    (hline : ∀ row ∈ statement.rows, OneLine row.text) (n : Nat) :
    Text.rows (statement.listing n) = statement.rows.map (·.written n) ∧
      statement.listing n = Text.indented (2 * n) (statement.listing 0) := by
  have hrows (indent : Int) :
      Text.rows (statement.listing indent) = statement.rows.map (·.written indent) := by
    rw [h.listing_eq]
    refine Text.rows_intercalate (by simpa using statement.rows_ne_nil) ?_
    exact List.forall_mem_map.mpr fun row hmem => Row.oneLine_written indent (hline row hmem)
  refine ⟨hrows n, ?_⟩
  rw [Text.indented, hrows, List.map_map, h.listing_eq]
  exact congrArg _ (List.map_congr_left fun row _ => row.written_natCast n)

end Node

/-! ## What stands on a row -/

/-- There is no line feed in a name. -/
theorem oneLine_name {name : String} (h : Kind.ofLexeme? name.toList = some .name) :
    OneLine name := by
  intro hmem
  exact absurd (Listing.breaksWord_of_mem_name h '\n' hmem) (by decide)

/-- There is no line feed in an operator. -/
theorem oneLine_spelling (op : Operator) : OneLine op.spelling := by
  cases op <;> decide

/-- The text of a number has no line feed, also where the number is not finite. -/
theorem Number.oneLine_render (x : Float) : OneLine (Style.source.render x) := by
  have hsign (sign : Float.Model.UnpackedFloat.Sign) : OneLine (signText sign) := by
    cases sign <;> decide
  unfold Style.render
  cases x.toModel.unpack with
  | notANumber => decide
  | infinity sign => exact oneLine_append.mpr ⟨hsign sign, by decide⟩
  | zero sign => exact oneLine_append.mpr ⟨oneLine_append.mpr ⟨hsign sign, by decide⟩, by decide⟩
  | finite sign m e hm =>
    refine oneLine_append.mpr ⟨hsign sign, fun hmem => ?_⟩
    obtain ⟨s, htext, -⟩ := exists_spelling_layout (shortest m e)
    rw [htext] at hmem
    exact absurd (s.isDigit_of_mem_text hmem) (by decide)

/-- An expression of a program stands on one row. -/
theorem Node.IsExpression.oneLine_listing {e : Node} (h : e.IsExpression) (indent : Int) :
    OneLine (e.listing indent) := by
  induction h generalizing indent with
  | literal n line => exact Number.oneLine_render _
  | reference hname line => exact oneLine_name hname
  | binary op _ _ line ihlhs ihrhs =>
    simp +decide [listing_binary, oneLine_append, ihlhs 0, ihrhs 0, oneLine_spelling op]
  | assign hname _ line ih =>
    simp +decide [listing_assign, oneLine_append, oneLine_name hname, ih 0]

namespace Grammar

open Cursor Parse Node

variable {tokens : List Token} {levels : Nat} {c c' : Cursor}

/-- What is read as an expression stands on one row. -/
theorem oneLine_of_outcome_expression (hspelled : NamesSpelled tokens) {value : Node}
    (hout : outcome (expression (nested levels)) c = (.ok value, c')) (h : c.ahead <:+ tokens) :
    OneLine (value.listing 0) := by
  obtain ⟨d, hfits, rfl, hmoves⟩ := derives_of_outcome_expression hout
  have hsubset : d.tokens ⊆ tokens := by
    intro token hmem
    apply h.subset
    rw [hmoves.ahead]
    exact List.mem_append_left _ hmem
  have hproper : IsExpression d.tree :=
    d.treeProper (fun token hmem => hspelled token (hsubset hmem)) hfits.bindsElses
  exact hproper.oneLine_listing 0

/-- A condition stands on one row, and what follows it is ahead, too. -/
theorem oneLine_of_condition (hspelled : NamesSpelled tokens) {m m' : Cursor} {condition : Node}
    {front back : List Token} {found found' : List SyntaxError} (hstart : c.Moves front found m)
    (hout : outcome (expression (nested levels)) m = (.ok condition, m'))
    (hclosing : m'.Moves back found' c') (h : c.ahead <:+ tokens) :
    OneLine (condition.listing 0) ∧ c'.ahead <:+ tokens :=
  ⟨oneLine_of_outcome_expression hspelled hout ((suffix_of_moves hstart).trans h),
    (suffix_around_expression hstart hout hclosing).trans h⟩

/-- The rows of what was read. -/
def Yield.rows : Yield → List Listing.Row
  | .statement node | .declaration node => node.rows
  | .declarations _ nodes => rowsOf nodes

/-- The markers in what was read. -/
def Yield.markers : Yield → List (String × SourceLine)
  | .statement node | .declaration node => node.markers
  | .declarations _ nodes => markersOf nodes

/-- No row of what was read has a line feed, if the messages of its markers have none. -/
theorem Reads.oneLine_rows {yield : Yield} (hreads : Reads levels c yield c')
    (hspelled : NamesSpelled tokens) (h : c.ahead <:+ tokens)
    (hmarkers : ∀ mark ∈ yield.markers, OneLine mark.1) : ∀ row ∈ yield.rows, OneLine row.text := by
  -- All text on the rows comes from tokens that were ahead, but for that of the markers.
  induction hreads with
  | print word semicolon hword hvalue _ =>
    have hline := oneLine_of_outcome_expression hspelled hvalue ((suffix_of_moves hword).trans h)
    refine List.forall_mem_singleton.mpr ?_
    simp +decide [listing_print, oneLine_append, hline]
  | evaluate semicolon _ hvalue _ =>
    have hline := oneLine_of_outcome_expression hspelled hvalue h
    refine List.forall_mem_singleton.mpr ?_
    simp +decide [listing_evaluate, oneLine_append, hline]
  | declare word name semicolon hmoves =>
    have hname := hspelled name.val (h.subset (by simp [hmoves.ahead])) name.property
    refine List.forall_mem_singleton.mpr ?_
    simp +decide [listing_declare, oneLine_append, oneLine_name hname]
  | define word name mark semicolon hstart hinitial _ =>
    have hname := hspelled name.val (h.subset (by simp [hstart.ahead])) name.property
    have hline :=
      oneLine_of_outcome_expression hspelled hinitial ((suffix_of_moves hstart).trans h)
    refine List.forall_mem_singleton.mpr ?_
    simp +decide [listing_define, oneLine_append, oneLine_name hname, hline]
  | plain _ _ ih => exact ih h hmarkers
  | ifThen word opening closing hstart hcondition hclosing _ ihthen =>
    obtain ⟨hline, hbranch⟩ := oneLine_of_condition hspelled hstart hcondition hclosing h
    have hthen := ihthen hbranch fun mark hmem => hmarkers mark (List.mem_append_right _ hmem)
    exact Listing.forall_mem_heading (oneLine_append.mpr ⟨by decide, hline⟩) hthen
  | ifElse word opening closing _ hstart hcondition hclosing _ hreads hmiddle _ ihthen ihelse =>
    obtain ⟨hline, hbranch⟩ := oneLine_of_condition hspelled hstart hcondition hclosing h
    have hother := (suffix_of_moves hmiddle).trans (hreads.suffix.trans hbranch)
    have hthen := ihthen hbranch fun mark hmem =>
      hmarkers mark (List.mem_append_right _ (List.mem_append_left _ hmem))
    have helse := ihelse hother fun mark hmem =>
      hmarkers mark (List.mem_append_right _ (List.mem_append_right _ hmem))
    refine List.forall_mem_append.mpr ⟨?_, Listing.forall_mem_heading (by decide) helse⟩
    exact Listing.forall_mem_heading (oneLine_append.mpr ⟨by decide, hline⟩) hthen
  | loop word opening closing hstart hcondition hclosing _ ihbody =>
    obtain ⟨hline, hbranch⟩ := oneLine_of_condition hspelled hstart hcondition hclosing h
    have hbody := ihbody hbranch fun mark hmem => hmarkers mark (List.mem_append_right _ hmem)
    exact Listing.forall_mem_heading (oneLine_append.mpr ⟨by decide, hline⟩) hbody
  | block opening closing hfirst _ _ ihinner =>
    have hinner := ihinner ((suffix_of_moves hfirst).trans h) hmarkers
    exact Listing.forall_mem_bracedRows (by decide) (by decide) (by decide) hinner
  | done => exact fun row hmem => absurd hmem List.not_mem_nil
  | next _ _ hfirst _ ihfirst ihrest =>
    have hnode := ihfirst h fun mark hmem => hmarkers mark (List.mem_append_left _ hmem)
    have hnodes := ihrest (hfirst.suffix.trans h) fun mark hmem =>
      hmarkers mark (List.mem_append_right _ hmem)
    exact List.forall_mem_append.mpr ⟨hnode, hnodes⟩
  | @giveUp _ _ m _ _ error _ _ _ _ _ hmoves _ ihrest =>
    have hsub := (suffix_recover m error).trans ((suffix_of_moves hmoves).trans h)
    have hnodes := ihrest hsub fun mark hmem => hmarkers mark (List.mem_cons_of_mem _ hmem)
    have hmessage : OneLine (error.report m.file).message :=
      hmarkers (error.mark m.file) List.mem_cons_self
    have hnode : ∀ row ∈ (error.marker m.file).rows, OneLine row.text := by
      simp +decide [SyntaxError.marker, listing_skipped, oneLine_append, hmessage]
    exact List.forall_mem_append.mpr ⟨hnode, hnodes⟩

end Grammar

namespace Program

variable {file : Option String} {text : String} {program : Program}

/-- The markers of a program that was read from a text say what they say on one line. -/
theorem oneLine_markers (h : Program.ofText file text = .ok program)
    (hfile : ∀ name ∈ file, OneLine name) :
    ∀ mark ∈ Node.markersOf program.statements, OneLine mark.1 := by
  obtain ⟨tokens, -, rfl⟩ := exists_tokens_of_ofText h
  intro mark hmem
  obtain ⟨error, herror, rfl⟩ := List.mem_map.mp ((markers_ofTokens file tokens).1.subset hmem)
  exact (oneLine_append.mp (oneLine_headline h hfile herror)).2

/-- The statements of a program, at any depth, are read from its tokens. -/
theorem Contains.statementFrom {tokens : TokenList} {statement : Node}
    (h : (ofTokens file tokens).Contains statement) : statement.StatementFrom tokens.tokens := by
  induction h with
  | statement hmem =>
    obtain ⟨c', hreads⟩ := reads_ofTokens file tokens
    exact hreads.yieldFrom (List.suffix_refl _) _ hmem
  | governed _ hmem ih => exact ih.of_mem_governed hmem

/-- No row of a statement has a line feed, wherever the statement stands in the program. -/
theorem Contains.oneLine_rows {statement : Node} (hstatement : program.Contains statement)
    (h : Program.ofText file text = .ok program) (hfile : ∀ name ∈ file, OneLine name) :
    ∀ row ∈ statement.rows, OneLine row.text := by
  induction hstatement with
  | @statement statement hmem =>
    have hmarkers := oneLine_markers h hfile
    obtain ⟨tokens, htokens, rfl⟩ := exists_tokens_of_ofText h
    obtain ⟨c', hreads⟩ := reads_ofTokens file tokens
    have hrows := hreads.oneLine_rows (TokenList.namesSpelled htokens) (List.suffix_refl _) hmarkers
    intro row hrow
    apply hrows
    rw [Yield.rows, Node.rowsOf_eq_flatMap]
    exact List.mem_flatMap.mpr ⟨statement, hmem, hrow⟩
  | governed _ hmem ih => exact fun row hrow => ih row.deeper (Node.deeper_mem_rows hmem hrow)

/-- Indentation moves the listing of a statement to the right. For every statement of a program that
was read from a text whose name is one line, the listing with indentation `n` is the one without
indentation with `2 * n` blanks inserted at the beginning of every row, and no row of it is empty.
A limit on the depth that is not below the height changes nothing, and with any limit both listings
are there or none is. -/
theorem listing_moves_right (h : Program.ofText file text = .ok program)
    (hfile : ∀ name ∈ file, OneLine name) {statement : Node}
    (hstatement : program.Contains statement) (n : Nat) :
    statement.listing n = Text.indented (2 * n) (statement.listing 0) ∧
    (∀ row ∈ Text.rows (statement.listing n), row ≠ "") ∧
    (∀ levels, statement.height ≤ levels →
      statement.listing? (.levels levels) n = some (statement.listing n)) ∧
    ∀ room : Headroom, statement.listing? room n =
      (statement.listing? room 0).map (Text.indented (2 * n)) := by
  have hlines := hstatement.oneLine_rows h hfile
  obtain ⟨tokens, -, rfl⟩ := exists_tokens_of_ofText h
  have hlisted := hstatement.statementFrom.listedInRows
  obtain ⟨hrows, hlisting⟩ := hlisted.listing_natCast hlines n
  refine ⟨hlisting, ?_, fun levels hheight => Node.listing?_of_height hheight n,
    Node.listing?_eq_map hlisting⟩
  rw [hrows]
  exact List.forall_mem_map.mpr fun row hmem =>
    Listing.Row.written_ne_empty n (hlisted.text_ne_empty row hmem)

/-- A conditional in a loop, with a malformed statement in one of its branches. -/
def brokenBranch : String := "while (c)\nif (a) \x7b print ; while (b) \x7b\x7d \x7d else x = 1;"

/-- The tokens of `brokenBranch`. -/
def brokenBranchTokens : TokenList :=
  ⟨[⟨.whileWord, "while", 1⟩, ⟨.openParen, "(", 1⟩, ⟨.name, "c", 1⟩, ⟨.closeParen, ")", 1⟩,
    ⟨.ifWord, "if", 2⟩, ⟨.openParen, "(", 2⟩, ⟨.name, "a", 2⟩, ⟨.closeParen, ")", 2⟩,
    ⟨.openBrace, "\x7b", 2⟩, ⟨.printWord, "print", 2⟩, ⟨.semicolon, ";", 2⟩,
    ⟨.whileWord, "while", 2⟩, ⟨.openParen, "(", 2⟩, ⟨.name, "b", 2⟩, ⟨.closeParen, ")", 2⟩,
    ⟨.openBrace, "\x7b", 2⟩, ⟨.closeBrace, "\x7d", 2⟩, ⟨.closeBrace, "\x7d", 2⟩,
    ⟨.elseWord, "else", 2⟩, ⟨.name, "x", 2⟩, ⟨.assign, "=", 2⟩, ⟨.number, "1", 2⟩,
    ⟨.semicolon, ";", 2⟩], 2⟩

/-- The conditional in `brokenBranch`. -/
def brokenBranchNode : Node :=
  .ifElse (.reference "a" (some 2))
    (.block
      [.skipped "Expected expression, got ';' on line 2 in demo" (some 2),
        .loop (.reference "b" (some 2)) (.block [] (some 2)) (some 2)] (some 2))
    (.evaluate (.assign "x" (.literal (.number (Number.ofNumeral "1")) (some 2)) (some 2))
      (some 2)) (some 2)

/-- The marker and the braces around nothing are moved as all other rows are. -/
theorem listing_moves_right_brokenBranch :
    ∃ program, Program.ofText (some "demo") brokenBranch = .ok program ∧
      (∀ name ∈ some "demo", OneLine name) ∧ program.Contains brokenBranchNode ∧
      brokenBranchNode.listing 0 =
        "if a\n  \x7b\n    <skipped: Expected expression, got ';' on line 2 in demo>\n" ++
          "    while b\n      \x7b\x7d\n  \x7d\nelse\n  (x = 1.0);" ∧
      brokenBranchNode.listing? .standard 2 =
        some ("    if a\n      \x7b\n" ++
          "        <skipped: Expected expression, got ';' on line 2 in demo>\n" ++
          "        while b\n          \x7b\x7d\n      \x7d\n    else\n      (x = 1.0);") ∧
      brokenBranchNode.listing 2 = Text.indented 4 (brokenBranchNode.listing 0) ∧
      (∀ row ∈ Text.rows (brokenBranchNode.listing 2), row ≠ "") ∧
      (∀ levels, brokenBranchNode.height ≤ levels →
        brokenBranchNode.listing? (.levels levels) 2 = some (brokenBranchNode.listing 2)) ∧
      ∀ room : Headroom, brokenBranchNode.listing? room 2 =
        (brokenBranchNode.listing? room 0).map (Text.indented 4) := by
  have htokens : TokenList.ofText brokenBranch = .ok brokenBranchTokens := by decide +kernel
  have hprogram := ofText_of_tokens (some "demo") htokens
  have hcontains : (ofTokens (some "demo") brokenBranchTokens).Contains brokenBranchNode :=
    .governed (.statement (List.mem_singleton.mpr rfl)) (List.mem_singleton.mpr rfl)
  exact ⟨_, hprogram, by decide, hcontains, by decide +kernel, by decide +kernel,
    listing_moves_right hprogram (by decide) hcontains 2⟩

end Program

end ScriptKit
