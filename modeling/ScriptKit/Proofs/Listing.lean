import ScriptKit.Proofs.TreeHeight

/-!
# The listing of a tree

Without a limit every tree has a listing, and a limit only decides whether there is one. So it is
enough to know the listings without a limit, and they are known from those of the parts.
-/

set_option autoImplicit false

namespace ScriptKit

/-- The second result is the first one, where that is one. -/
def Kept {α : Type} (result result' : Option α) : Prop := ∀ a, result = some a → result' = some a

section Kept

variable {α β : Type} {result result' : Option α} {next next' : α → Option β}

/-- A result keeps itself. -/
theorem Kept.refl (result : Option α) : Kept result result := fun _ h => h

/-- What goes on from kept results, and keeps its own, is kept. -/
theorem Kept.bind (h : Kept result result') (hnext : ∀ a, Kept (next a) (next' a)) :
    Kept (result >>= next) (result' >>= next') := by
  intro b hb
  obtain ⟨a, ha, hb⟩ := Option.bind_eq_some_iff.mp hb
  exact Option.bind_eq_some_iff.mpr ⟨a, h a ha, hnext a b hb⟩

end Kept

namespace Node

/-- The listings of statements are kept if each one is. -/
theorem kept_listings {room room' : Headroom} {indent : Int} {nodes : List Node}
    (h : ∀ node ∈ nodes, Kept (node.listing? room indent) (node.listing? room' indent)) :
    Kept (listings? room indent nodes) (listings? room' indent nodes) := by
  induction nodes with
  | nil => exact .refl _
  | cons first rest ih =>
    rw [listings?, listings?]
    refine (h first List.mem_cons_self).bind fun text => ?_
    exact (ih fun node hmem => h node (List.mem_cons_of_mem first hmem)).bind fun texts => .refl _

/-- What is listed with a limit is listed so without one. -/
theorem kept_listing (levels : Nat) (node : Node) (indent : Int) :
    Kept (node.listing? (.levels levels) indent) (node.listing? .unlimited indent) := by
  induction levels generalizing node indent with
  | zero =>
    rw [listing?]
    exact fun text h => absurd h (by simp [Headroom.enter?])
  | succ levels ih =>
    rw [listing?, listing?]
    cases node with
    | binary op lhs rhs line =>
      exact (ih lhs 0).bind fun left => (ih rhs 0).bind fun right => .refl _
    | assign name value line => exact (ih value 0).bind fun text => .refl _
    | evaluate expression line => exact (ih expression 0).bind fun text => .refl _
    | define name initial line => exact (ih initial 0).bind fun text => .refl _
    | print expression line => exact (ih expression 0).bind fun text => .refl _
    | ifThen condition thenBranch line =>
      exact (ih condition 0).bind fun test => (ih thenBranch _).bind fun first => .refl _
    | ifElse condition thenBranch elseBranch line =>
      exact (ih condition 0).bind fun test => (ih thenBranch _).bind fun first =>
        (ih elseBranch _).bind fun second => .refl _
    | loop condition body line =>
      exact (ih condition 0).bind fun test => (ih body _).bind fun text => .refl _
    | block statements line =>
      exact (kept_listings fun node _ => ih node _).bind fun texts => .refl _
    | _ => exact .refl _

/-- The listing that is found with unlimited room is the listing. -/
theorem listing_eq_of_unlimited {node : Node} {indent : Int} {text : String}
    (h : node.listing? .unlimited indent = some text) : node.listing indent = text := by
  rw [listing, h, Option.getD_some]

/-- With unlimited room each node has its listing. -/
theorem listing?_unlimited (node : Node) (indent : Int) :
    node.listing? .unlimited indent = some (node.listing indent) := by
  obtain ⟨text, -, htext⟩ := agree_listing_of_height node.height.le_refl indent
  rw [htext, listing_eq_of_unlimited htext]

/-- A listing with a limit is the listing. -/
theorem listing_eq_of_listing? {room : Headroom} {node : Node} {indent : Int} {text : String}
    (h : node.listing? room indent = some text) : node.listing indent = text := by
  cases room with
  | unlimited => exact listing_eq_of_unlimited h
  | levels n => exact listing_eq_of_unlimited (kept_listing n node indent text h)

/-- A tree that is no higher than the limit has its listing. -/
theorem listing?_of_height {levels : Nat} {node : Node} (h : node.height ≤ levels) (indent : Int) :
    node.listing? (.levels levels) indent = some (node.listing indent) := by
  obtain ⟨text, hlimited, hunlimited⟩ := agree_listing_of_height h indent
  rw [hlimited, ← hunlimited, listing?_unlimited]

/-- Statements that are all listed are no higher than the levels that each listed one needs. -/
theorem heightOf_le_of_listings? {room : Headroom} {levels : Nat} {indent : Int}
    {nodes : List Node} {texts : List String}
    (hnode : ∀ {node : Node} {text : String}, node.listing? room indent = some text →
      node.height ≤ levels)
    (h : listings? room indent nodes = some texts) : heightOf nodes ≤ levels := by
  induction nodes generalizing texts with
  | nil => exact Nat.zero_le _
  | cons first rest ih =>
    rw [listings?] at h
    obtain ⟨text, htext, h⟩ := Option.bind_eq_some_iff.mp h
    obtain ⟨others, hothers, -⟩ := Option.bind_eq_some_iff.mp h
    exact Nat.max_le.mpr ⟨hnode htext, ih hothers⟩

/-- A tree that is listed with a limit is no higher than the limit. -/
theorem height_le_of_listing? {levels : Nat} {node : Node} {indent : Int} {text : String}
    (h : node.listing? (.levels levels) indent = some text) : node.height ≤ levels := by
  induction levels generalizing node indent text with
  | zero =>
    rw [listing?] at h
    exact absurd h (by simp [Headroom.enter?])
  | succ levels ih =>
    rw [listing?] at h
    cases node with
    | binary op lhs rhs line =>
      obtain ⟨left, hleft, h⟩ := Option.bind_eq_some_iff.mp h
      obtain ⟨right, hright, -⟩ := Option.bind_eq_some_iff.mp h
      exact Nat.succ_le_succ (Nat.max_le.mpr ⟨ih hleft, ih hright⟩)
    | assign _ part _ | evaluate part _ | define _ part _ | print part _ =>
      obtain ⟨text, htext, -⟩ := Option.bind_eq_some_iff.mp h
      exact Nat.succ_le_succ (ih htext)
    | ifThen condition part _ | loop condition part _ =>
      obtain ⟨test, htest, h⟩ := Option.bind_eq_some_iff.mp h
      obtain ⟨text, htext, -⟩ := Option.bind_eq_some_iff.mp h
      exact Nat.succ_le_succ (Nat.max_le.mpr ⟨ih htest, ih htext⟩)
    | ifElse condition thenBranch elseBranch line =>
      obtain ⟨test, htest, h⟩ := Option.bind_eq_some_iff.mp h
      obtain ⟨first, hfirst, h⟩ := Option.bind_eq_some_iff.mp h
      obtain ⟨second, hsecond, -⟩ := Option.bind_eq_some_iff.mp h
      have hbranches := Nat.max_le.mpr ⟨ih hfirst, ih hsecond⟩
      exact Nat.succ_le_succ (Nat.max_le.mpr ⟨ih htest, hbranches⟩)
    | block statements line =>
      obtain ⟨texts, htexts, -⟩ := Option.bind_eq_some_iff.mp h
      exact Nat.succ_le_succ (heightOf_le_of_listings? ih htexts)
    | _ => exact Nat.succ_le_succ (Nat.zero_le levels)

/-- Whether a tree is listed does not depend on the indentation, so what relates two listings of it
relates them with a limit, too. -/
theorem listing?_eq_map {node : Node} {indent indent' : Int} {change : String → String}
    (h : node.listing indent' = change (node.listing indent)) (room : Headroom) :
    node.listing? room indent' = (node.listing? room indent).map change := by
  cases room with
  | unlimited => rw [listing?_unlimited, listing?_unlimited, Option.map_some, h]
  | levels n =>
    by_cases hheight : node.height ≤ n
    · rw [listing?_of_height hheight, listing?_of_height hheight, Option.map_some, h]
    · have hnone (i : Int) : node.listing? (.levels n) i = none :=
        Option.eq_none_iff_forall_ne_some.mpr fun text htext =>
          hheight (height_le_of_listing? htext)
      rw [hnone, hnone, Option.map_none]

/-- With unlimited room each of the statements has its listing. -/
theorem listings?_unlimited (nodes : List Node) (indent : Int) :
    listings? .unlimited indent nodes = some (nodes.map (listing indent)) := by
  induction nodes with
  | nil => rfl
  | cons first rest ih =>
    rw [listings?, listing?_unlimited, ih]
    rfl

section Equations

/-- With unlimited room the listing is handed on. -/
theorem bind_listing {α : Type} (node : Node) (indent : Int) (next : String → Option α) :
    (node.listing? .unlimited indent >>= next) = next (node.listing indent) := by
  rw [listing?_unlimited]
  rfl

-- One step into a tree is a computation, so `exact` sees through it to the listings of the parts.
variable (indent : Int) (op : Operator) (name message : String) (value : Value)
  (lhs rhs expression condition thenBranch elseBranch body : Node) (statements : List Node)
  (line : SourceLine)

/-- A literal is listed as its source text. -/
theorem listing_literal : (literal value line).listing indent = value.sourceText := rfl

/-- A variable is listed as its name. -/
theorem listing_reference : (reference name line).listing indent = name := rfl

/-- An operation is listed in parentheses, with blanks around the operator. -/
theorem listing_binary : (binary op lhs rhs line).listing indent =
    "(" ++ lhs.listing 0 ++ " " ++ op.spelling ++ " " ++ rhs.listing 0 ++ ")" := by
  apply listing_eq_of_unlimited
  exact (bind_listing lhs 0 _).trans (bind_listing rhs 0 _)

/-- An assignment is listed in parentheses. -/
theorem listing_assign : (assign name expression line).listing indent =
    "(" ++ name ++ " = " ++ expression.listing 0 ++ ")" := by
  apply listing_eq_of_unlimited
  exact bind_listing expression 0 _

/-- An expression statement is listed behind the margin and ends with a semicolon. -/
theorem listing_evaluate : (evaluate expression line).listing indent =
    margin indent ++ expression.listing 0 ++ ";" := by
  apply listing_eq_of_unlimited
  exact bind_listing expression 0 _

/-- A declaration without a value is listed behind the margin. -/
theorem listing_declare : (declare name line).listing indent =
    margin indent ++ "var " ++ name ++ ";" := rfl

/-- A declaration with a value is listed behind the margin. -/
theorem listing_define : (define name expression line).listing indent =
    margin indent ++ "var " ++ name ++ " = " ++ expression.listing 0 ++ ";" := by
  apply listing_eq_of_unlimited
  exact bind_listing expression 0 _

/-- A `print` is listed behind the margin. -/
theorem listing_print : (print expression line).listing indent =
    margin indent ++ "print " ++ expression.listing 0 ++ ";" := by
  apply listing_eq_of_unlimited
  exact bind_listing expression 0 _

/-- The branch of an `if` is listed on the lines below it, one level further in. -/
theorem listing_ifThen : (ifThen condition thenBranch line).listing indent =
    margin indent ++ "if " ++ condition.listing 0 ++ "\n" ++ thenBranch.listing (indent + 1) := by
  apply listing_eq_of_unlimited
  exact (bind_listing condition 0 _).trans (bind_listing thenBranch (indent + 1) _)

/-- The branches are listed below the `if` and below the `else`, one level further in. -/
theorem listing_ifElse : (ifElse condition thenBranch elseBranch line).listing indent =
    margin indent ++ "if " ++ condition.listing 0 ++ "\n" ++ thenBranch.listing (indent + 1) ++
      "\n" ++ margin indent ++ "else\n" ++ elseBranch.listing (indent + 1) := by
  apply listing_eq_of_unlimited
  exact ((bind_listing condition 0 _).trans (bind_listing thenBranch (indent + 1) _)).trans
    (bind_listing elseBranch (indent + 1) _)

/-- The body of a loop is listed on the lines below it, one level further in. -/
theorem listing_loop : (loop condition body line).listing indent =
    margin indent ++ "while " ++ condition.listing 0 ++ "\n" ++ body.listing (indent + 1) := by
  apply listing_eq_of_unlimited
  exact (bind_listing condition 0 _).trans (bind_listing body (indent + 1) _)

/-- The statements of a block are listed in braces, one level further in. -/
theorem listing_block : (block statements line).listing indent =
    braced indent (statements.map (listing (indent + 1))) := by
  apply listing_eq_of_unlimited
  exact congrArg (· >>= fun texts => some (braced indent texts))
    (listings?_unlimited statements (indent + 1))

/-- A marker is listed with its message. -/
theorem listing_skipped : (skipped message line).listing indent =
    margin indent ++ "<skipped: " ++ message ++ ">" := rfl

end Equations

end Node

end ScriptKit
