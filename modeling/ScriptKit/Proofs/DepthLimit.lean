import ScriptKit.Proofs.Execution

/-!
# Execution with a limited depth

A limit on the depth to which a program is evaluated only cuts runs off. A run that does not come to
the limit is the run without any limit. A run that comes to it has printed until then what the run
without a limit prints first. What the limit does depends on the statements that are executed, not
on those that the program has.

The run without a limit need not end, and execution says nothing about a run whose fuel did not
suffice. So runs are watched here: `Node.watch` goes the way of `Node.exec`, and where the fuel is
used up it still shows the machine, and where in the tree statements were begun. `Cut` compares two
such runs: they are the same, or the first one stopped for lack of fuel or of depth, and it had
printed what the second one prints first.
-/

set_option autoImplicit false

namespace ScriptKit

/-! ## Watching a run -/

/-- Why a run stops before it is done: it fails, or its fuel is used up. -/
inductive Halt where
  | failure (failure : Failure)
  | outOfFuel

/-- Where a statement stands: its number in what it stands in, and then the place of that. -/
abbrev Place := List Nat

/-- What is seen of a run: the machine, and where statements were begun, the last one first. -/
structure Sight where
  machine : Machine
  begun : List Place

/-- A step of a run that is watched. -/
abbrev Watch := ExceptT Halt (StateM Sight)

namespace Watch

variable {α β : Type}

/-- The result of a watched step, and what has been seen by then. -/
def outcome (watch : Watch α) (sight : Sight) : Except Halt α × Sight := watch sight

/-- See that the statement at a place is begun. -/
def note (place : Place) : Watch Unit :=
  modify fun sight => { sight with begun := place :: sight.begun }

/-- A step of execution, which is seen as a whole. -/
def ofExec (action : Exec α) : Watch α := fun sight =>
  match action sight.machine with
  | none => (.error .outOfFuel, sight)
  | some (.ok a, machine) => (.ok a, { sight with machine })
  | some (.error failure, machine) => (.error (.failure failure), { sight with machine })

/-- Watch steps for all nodes, which are numbered, in order, up to the first one that halts. -/
def forAll (step : Nat → Node → Watch Unit) : Nat → List Node → Watch Unit
  | _, [] => return ()
  | number, first :: rest => do
    step number first
    forAll step (number + 1) rest

/-- What execution says about a run of which this was seen: nothing if the fuel was used up. -/
def finished : Except Halt α × Sight → Option (Except Failure α × Machine)
  | (.ok a, sight) => some (.ok a, sight.machine)
  | (.error (.failure failure), sight) => some (.error failure, sight.machine)
  | (.error .outOfFuel, _) => none

end Watch

/-- Watch the run of the statement at a place, and of the statements inside it. -/
def Node.watch : Nat → Headroom → Place → Node → Watch Unit
  | 0, _, _, _ => throw .outOfFuel
  | fuel + 1, room, place, node => do
    Watch.note place
    match room.enter? with
    | none => throw (.failure .tooDeep)
    | some inner =>
      match node with
      | .evaluate expression _ => do
        let _ ← Watch.ofExec (.ofEval (expression.eval inner))
      | .print expression _ => do
        let value ← Watch.ofExec (.ofEval (expression.eval inner))
        Watch.ofExec (.print value.text)
      | .declare name _ => Watch.ofExec (.store name .null)
      | .define name initial _ => do
        let value ← Watch.ofExec (.ofEval (initial.eval inner))
        Watch.ofExec (.store name value)
      | .block statements _ =>
        Watch.forAll (fun number => Node.watch fuel inner (number :: place)) 0 statements
      | .ifThen condition thenBranch _ => do
        let value ← Watch.ofExec (.ofEval (condition.eval inner))
        if value.holds then Node.watch fuel inner (0 :: place) thenBranch
      | .ifElse condition thenBranch elseBranch _ => do
        let value ← Watch.ofExec (.ofEval (condition.eval inner))
        if value.holds then Node.watch fuel inner (0 :: place) thenBranch
        else Node.watch fuel inner (1 :: place) elseBranch
      | .loop condition body _ => do
        let value ← Watch.ofExec (.ofEval (condition.eval inner))
        if value.holds then
          Node.watch fuel inner (0 :: place) body
          Node.watch fuel room place node
      | .skipped .. => return ()
      | other => throw (.failure other.misplaced)

/-- Watch the run of statements in order. -/
def Node.watchAll (fuel : Nat) (room : Headroom) (statements : List Node) : Watch Unit :=
  Watch.forAll (fun number => Node.watch fuel room [number]) 0 statements

namespace Watch

variable {α β : Type} {watch : Watch α} {next : α → Watch β} {sight sight' : Sight}

/-- A chain of watched steps goes on with what has been seen so far. -/
theorem outcome_bind (watch : Watch α) (next : α → Watch β) (sight : Sight) :
    outcome (watch >>= next) sight =
      ExceptT.bindCont (m := StateM Sight) next (outcome watch sight).1 (outcome watch sight).2 :=
  rfl

/-- After a watched step that succeeds the next one begins. -/
theorem outcome_bind_of_ok {a : α} (h : outcome watch sight = (.ok a, sight')) :
    outcome (watch >>= next) sight = outcome (next a) sight' := by
  rw [outcome_bind, h]
  rfl

/-- After a watched step that halts the next one does not begin. -/
theorem outcome_bind_of_error {halt : Halt} (h : outcome watch sight = (.error halt, sight')) :
    outcome (watch >>= next) sight = (.error halt, sight') := by
  rw [outcome_bind, h]
  rfl

/-- The step of execution does what is seen of the watched step. -/
def Shows (watch : Watch α) (action : Exec α) : Prop :=
  ∀ sight, Exec.outcome action sight.machine = finished (outcome watch sight)

/-- Returning a value is seen as it is done. -/
theorem shows_pure (a : α) : Shows (pure a) (pure a) := fun _ => rfl

/-- A failure is seen as it is. -/
theorem shows_throw (failure : Failure) :
    Shows (throw (.failure failure) : Watch α) (throw failure) := fun _ => rfl

/-- A step of execution that is watched as a whole is seen as it is done. -/
theorem shows_ofExec (action : Exec α) : Shows (ofExec action) action := by
  intro sight
  unfold outcome ofExec Exec.outcome
  rcases action sight.machine with _ | ⟨_ | a, machine⟩ <;> rfl

/-- Steps in a row are seen as they are done, if each of them is. -/
theorem Shows.bind {action : Exec α} {step : α → Exec β} (h : Shows watch action)
    (hnext : ∀ a, Shows (next a) (step a)) : Shows (watch >>= next) (action >>= step) := by
  intro sight
  rw [Exec.outcome_bind, h sight]
  rcases hfirst : outcome watch sight with ⟨(failure | _) | a, sight'⟩
  · rw [outcome_bind_of_error hfirst]
    rfl
  · rw [outcome_bind_of_error hfirst]
    rfl
  · rw [outcome_bind_of_ok hfirst]
    exact hnext a sight'

/-- Steps for all nodes are seen as they are done, whatever their numbers are. -/
theorem shows_forAll {watch : Nat → Node → Watch Unit} {step : Node → Exec Unit}
    (h : ∀ number node, Shows (watch number node) (step node)) (number : Nat) (nodes : List Node) :
    Shows (forAll watch number nodes) (Exec.forAll step nodes) := by
  induction nodes generalizing number with
  | nil => exact shows_pure ()
  | cons first rest ih => exact (h number first).bind fun _ => ih (number + 1)

/-- To see that a statement is begun changes nothing for execution. -/
theorem Shows.note {action : Exec α} (h : Shows watch action) (place : Place) :
    Shows (note place >>= fun _ => watch) action := fun sight =>
  h { sight with begun := place :: sight.begun }

end Watch

/-- Execution does what is seen of it. -/
theorem Node.shows_watch (fuel : Nat) (room : Headroom) (place : Place) (node : Node) :
    (node.watch fuel room place).Shows (node.exec fuel room) := by
  induction fuel generalizing room place node with
  | zero => exact fun _ => rfl
  | succ fuel ih =>
    rw [Node.watch, Node.exec]
    apply Watch.Shows.note
    cases room.enter? with
    | none => exact Watch.shows_throw _
    | some inner =>
      have heval (expression : Node) := Watch.shows_ofExec (.ofEval (expression.eval inner))
      cases node with
      | evaluate expression _ => exact (heval expression).bind fun _ => Watch.shows_pure ()
      | print expression _ => exact (heval expression).bind fun _ => Watch.shows_ofExec _
      | declare name _ => exact Watch.shows_ofExec _
      | define name initial _ => exact (heval initial).bind fun _ => Watch.shows_ofExec _
      | block statements _ => exact Watch.shows_forAll (fun _ => ih inner _) 0 statements
      | ifThen condition thenBranch _ =>
        refine (heval condition).bind fun value => ?_
        split_ifs
        · exact ih inner _ thenBranch
        · exact Watch.shows_pure ()
      | ifElse condition thenBranch elseBranch _ =>
        refine (heval condition).bind fun value => ?_
        split_ifs
        · exact ih inner _ thenBranch
        · exact ih inner _ elseBranch
      | loop condition body _ =>
        refine (heval condition).bind fun value => ?_
        split_ifs
        · exact (ih inner _ body).bind fun _ => ih room _ _
        · exact Watch.shows_pure ()
      | skipped _ _ => exact Watch.shows_pure ()
      | _ => exact Watch.shows_throw _

/-- A run of statements is seen as it is done. -/
theorem Node.shows_watchAll (fuel : Nat) (room : Headroom) (statements : List Node) :
    (Node.watchAll fuel room statements).Shows (Node.execAll fuel room statements) :=
  Watch.shows_forAll (fun _ => Node.shows_watch fuel room _) 0 statements

/-! ## What has been seen stays seen -/

/-- All that is seen first is seen later, too, in front of what comes then. -/
structure Sight.Leads (sight sight' : Sight) : Prop where
  printed : sight.machine.printed.toList <+: sight'.machine.printed.toList
  begun : sight.begun <:+ sight'.begun

/-- What is seen is seen. -/
theorem Sight.Leads.refl (sight : Sight) : sight.Leads sight :=
  ⟨List.prefix_refl _, List.suffix_refl _⟩

/-- What is seen stays seen. -/
theorem Sight.Leads.trans {sight sight' sight'' : Sight} (h : sight.Leads sight')
    (h' : sight'.Leads sight'') : sight.Leads sight'' :=
  ⟨h.printed.trans h'.printed, h.begun.trans h'.begun⟩

namespace Watch

variable {α β : Type} {watch : Watch α} {next : α → Watch β}

/-- A watched step that takes back nothing of what was seen. -/
def Grows (watch : Watch α) : Prop := ∀ sight : Sight, sight.Leads (outcome watch sight).2

/-- Returning a value takes back nothing of what was seen. -/
theorem grows_pure (a : α) : Grows (pure a) := fun sight => .refl sight

/-- Halting takes back nothing of what was seen. -/
theorem grows_throw (halt : Halt) : Grows (throw halt : Watch α) := fun sight => .refl sight

/-- Seeing a statement begun takes back nothing. -/
theorem grows_note (place : Place) : Grows (note place) := fun _ =>
  ⟨List.prefix_refl _, List.suffix_cons _ _⟩

/-- A statement is begun, and then nothing is taken back. -/
theorem leads_note (h : Grows watch) (place : Place) (sight : Sight) :
    Sight.Leads { sight with begun := place :: sight.begun }
      (outcome (note place >>= fun _ => watch) sight).2 :=
  h { sight with begun := place :: sight.begun }

/-- An evaluation takes back nothing: it neither prints nor begins a statement. -/
theorem grows_ofEval (action : Eval α) : Grows (ofExec (.ofEval action)) := by
  intro sight
  unfold outcome ofExec Exec.ofEval
  rcases action sight.machine.vars with ⟨_ | a, vars⟩ <;>
    exact ⟨List.prefix_refl _, List.suffix_refl _⟩

/-- Binding a variable takes back nothing. -/
theorem grows_store (name : String) (value : Value) : Grows (ofExec (.store name value)) :=
  fun _ => ⟨List.prefix_refl _, List.suffix_refl _⟩

/-- Printing adds a line and takes back none. -/
theorem grows_print (line : String) : Grows (ofExec (.print line)) := by
  intro sight
  refine ⟨?_, List.suffix_refl _⟩
  have hprinted : (outcome (ofExec (.print line)) sight).2.machine.printed =
    sight.machine.printed.push line := rfl
  rw [hprinted, Array.toList_push]
  exact List.prefix_append _ _

/-- Steps in a row take back nothing, if none of them does. -/
theorem Grows.bind (h : Grows watch) (hnext : ∀ a, Grows (next a)) : Grows (watch >>= next) := by
  intro sight
  have hfirst := h sight
  rcases hout : outcome watch sight with ⟨halt | a, sight'⟩
  · rw [hout] at hfirst
    rw [outcome_bind_of_error hout]
    exact hfirst
  · rw [hout] at hfirst
    rw [outcome_bind_of_ok hout]
    exact hfirst.trans (hnext a sight')

/-- A step that is chosen takes back nothing, if neither choice does. -/
theorem grows_ite {watch' : Watch α} {p : Prop} [Decidable p] (h : Grows watch)
    (h' : Grows watch') : Grows (if p then watch else watch') := by
  split_ifs
  · exact h
  · exact h'

/-- Steps for all nodes take back nothing. -/
theorem grows_forAll {watch : Nat → Node → Watch Unit}
    (h : ∀ number node, Grows (watch number node)) (number : Nat) (nodes : List Node) :
    Grows (forAll watch number nodes) := by
  induction nodes generalizing number with
  | nil => exact grows_pure ()
  | cons first rest ih => exact (h number first).bind fun _ => ih (number + 1)

end Watch

/-- A statement is begun, and then nothing is taken back if nothing is with less fuel. -/
theorem Node.leads_watch_succ {fuel : Nat}
    (hgrows : ∀ room place node, (Node.watch fuel room place node).Grows)
    (room : Headroom) (place : Place) (node : Node) (sight : Sight) :
    Sight.Leads { sight with begun := place :: sight.begun }
      (Watch.outcome (node.watch (fuel + 1) room place) sight).2 := by
  rw [Node.watch]
  apply Watch.leads_note
  cases room.enter? with
  | none => exact Watch.grows_throw _
  | some inner =>
    have heval (expression : Node) := Watch.grows_ofEval (expression.eval inner)
    cases node with
    | evaluate expression _ => exact (heval expression).bind fun _ => Watch.grows_pure ()
    | print expression _ => exact (heval expression).bind fun _ => Watch.grows_print _
    | declare name _ => exact Watch.grows_store name .null
    | define name initial _ => exact (heval initial).bind fun _ => Watch.grows_store name _
    | block statements _ => exact Watch.grows_forAll (fun _ => hgrows inner _) 0 statements
    | ifThen condition thenBranch _ =>
      exact (heval condition).bind fun _ =>
        Watch.grows_ite (hgrows inner _ thenBranch) (Watch.grows_pure ())
    | ifElse condition thenBranch elseBranch _ =>
      exact (heval condition).bind fun _ =>
        Watch.grows_ite (hgrows inner _ thenBranch) (hgrows inner _ elseBranch)
    | loop condition body _ =>
      exact (heval condition).bind fun _ =>
        Watch.grows_ite ((hgrows inner _ body).bind fun _ => hgrows room _ _) (Watch.grows_pure ())
    | skipped _ _ => exact Watch.grows_pure ()
    | _ => exact Watch.grows_throw _

/-- A run takes back nothing. -/
theorem Node.grows_watch (fuel : Nat) (room : Headroom) (place : Place) (node : Node) :
    (node.watch fuel room place).Grows := by
  induction fuel generalizing room place node with
  | zero => exact Watch.grows_throw _
  | succ fuel ih =>
    intro sight
    exact (Watch.grows_note place sight).trans (Node.leads_watch_succ ih room place node sight)

/-- A statement that is run with some fuel is seen to be begun. -/
theorem Node.mem_begun_watch (fuel : Nat) (room : Headroom) (place : Place) (node : Node)
    (sight : Sight) : place ∈ (Watch.outcome (node.watch (fuel + 1) room place) sight).2.begun :=
  (Node.leads_watch_succ (Node.grows_watch fuel) room place node sight).begun.mem List.mem_cons_self

/-! ## Runs that are cut off -/

/-- Two evaluations come out the same, or the first one was too deep. -/
inductive Eval.Cut {α : Type} :
    Except Failure α × Variables → Except Failure α × Variables → Prop where
  | same (result : Except Failure α × Variables) : Cut result result
  | tooDeep (vars : Variables) (result : Except Failure α × Variables) :
      Cut (.error .tooDeep, vars) result

/-- Evaluations in a row come out the same or are too deep, if each of them is so. -/
theorem Eval.Cut.bind {α β : Type} {action action' : Eval α} {next next' : α → Eval β}
    {vars : Variables} (h : Cut (outcome action vars) (outcome action' vars))
    (hnext : ∀ a vars, Cut (outcome (next a) vars) (outcome (next' a) vars)) :
    Cut (outcome (action >>= next) vars) (outcome (action' >>= next') vars) := by
  rw [outcome_bind, outcome_bind]
  generalize outcome action vars = result at h
  generalize outcome action' vars = result' at h
  cases h with
  | tooDeep vars' _ => exact .tooDeep vars' _
  | same =>
    rcases result with ⟨failure | a, vars'⟩
    · exact .same _
    · exact hnext a vars'

/-- An expression has the same value in more headroom, unless it was too deep for the smaller. -/
theorem Node.cut_eval {room room' : Headroom} (h : room.Within room') (node : Node)
    (vars : Variables) :
    Eval.Cut (Eval.outcome (node.eval room) vars) (Eval.outcome (node.eval room') vars) := by
  induction room, node using Node.eval.induct generalizing room' vars with
  | case1 node room hnone =>
    rw [Node.eval, hnone]
    exact .tooDeep vars _
  | case2 room inner henter value line =>
    obtain ⟨inner', henter', -⟩ := h.enter henter
    rw [Node.eval, Node.eval, henter, henter']
    exact .same _
  | case3 room inner henter name line =>
    obtain ⟨inner', henter', -⟩ := h.enter henter
    rw [Node.eval, Node.eval, henter, henter']
    exact .same _
  | case4 room inner henter name expression line ih =>
    obtain ⟨inner', henter', hinner⟩ := h.enter henter
    rw [Node.eval, Node.eval, henter, henter']
    exact Eval.Cut.bind (ih hinner vars) fun value vars' => .same _
  | case5 room inner henter op lhs rhs line ihlhs ihrhs =>
    obtain ⟨inner', henter', hinner⟩ := h.enter henter
    rw [Node.eval, Node.eval, henter, henter']
    refine Eval.Cut.bind (ihlhs hinner vars) fun left vars' => ?_
    exact Eval.Cut.bind (ihrhs hinner vars') fun right vars'' => .same _
  | case6 room inner henter other hliteral hreference hassign hbinary =>
    obtain ⟨inner', henter', -⟩ := h.enter henter
    rw [Node.eval, Node.eval, henter, henter']
    cases other with
    | literal value line => exact (hliteral value line rfl).elim
    | reference name line => exact (hreference name line rfl).elim
    | assign name value line => exact (hassign name value line rfl).elim
    | binary op lhs rhs line => exact (hbinary op lhs rhs line rfl).elim
    | _ => exact .same _

namespace Watch

variable {α β : Type} {watch watch' : Watch α} {next next' : α → Watch β}

/-- Two runs were seen to be the same, or the first one stopped for lack of fuel or of headroom, and
it had printed what the second one prints first. -/
inductive SeenCut : Except Halt α × Sight → Except Halt α × Sight → Prop where
  | same (seen : Except Halt α × Sight) : SeenCut seen seen
  | outOfFuel {sight : Sight} {seen : Except Halt α × Sight}
      (h : sight.machine.printed.toList <+: seen.2.machine.printed.toList) :
      SeenCut (.error .outOfFuel, sight) seen
  | tooDeep {sight : Sight} {seen : Except Halt α × Sight}
      (h : sight.machine.printed.toList <+: seen.2.machine.printed.toList) :
      SeenCut (.error (.failure .tooDeep), sight) seen

/-- Whatever became of the first run, it had printed what the second one prints first. -/
theorem SeenCut.printed {seen seen' : Except Halt α × Sight} (h : SeenCut seen seen') :
    seen.2.machine.printed.toList <+: seen'.2.machine.printed.toList := by
  cases h with
  | same => exact List.prefix_refl _
  | outOfFuel h => exact h
  | tooDeep h => exact h

/-- A run that came to its end and was not too deep was not cut off. -/
theorem SeenCut.finished_eq {seen seen' : Except Halt α × Sight} (h : SeenCut seen seen')
    {result : Except Failure α} {machine : Machine}
    (hfinished : finished seen = some (result, machine)) (hresult : result ≠ .error .tooDeep) :
    finished seen' = some (result, machine) := by
  cases h with
  | same => exact hfinished
  | outOfFuel => cases hfinished
  | tooDeep =>
    cases hfinished
    exact (hresult rfl).elim

/-- The first step does what the second one does, or it is cut off. -/
def Cut (watch watch' : Watch α) : Prop :=
  ∀ sight, SeenCut (outcome watch sight) (outcome watch' sight)

/-- A step that is not cut off does what it does. -/
theorem Cut.refl (watch : Watch α) : Cut watch watch := fun _ => .same _

/-- A step without fuel is cut off before it has printed anything. -/
theorem cut_outOfFuel (h : Grows watch) : Cut (throw .outOfFuel) watch := fun sight =>
  .outOfFuel (h sight).printed

/-- A step without headroom is cut off when its statement is begun. -/
theorem cut_tooDeep (h : Grows watch) (place : Place) :
    Cut (note place >>= fun _ => throw (.failure .tooDeep)) watch := fun sight =>
  .tooDeep (h sight).printed

/-- A watched evaluation is cut off where the evaluation is too deep. -/
theorem cut_ofEval {action action' : Eval α}
    (h : ∀ vars, Eval.Cut (Eval.outcome action vars) (Eval.outcome action' vars)) :
    Cut (ofExec (.ofEval action)) (ofExec (.ofEval action')) := by
  intro sight
  have hcut := h sight.machine.vars
  have hgrows := grows_ofEval action' sight
  unfold outcome ofExec Exec.ofEval at hgrows ⊢
  unfold Eval.outcome at hcut
  generalize action sight.machine.vars = result at hcut ⊢
  cases hcut with
  | same => exact .same _
  | tooDeep vars _ => exact .tooDeep hgrows.printed

/-- What comes behind a step that is cut off is not done, and in the other run it takes back
nothing. -/
theorem Cut.bind (h : Cut watch watch') (hnext : ∀ a, Cut (next a) (next' a))
    (hgrows : ∀ a, Grows (next' a)) : Cut (watch >>= next) (watch' >>= next') := by
  intro sight
  have hleads : (outcome watch' sight).2.Leads (outcome (watch' >>= next') sight).2 := by
    rcases hout : outcome watch' sight with ⟨halt | a, sight'⟩
    · rw [outcome_bind_of_error hout]
      exact .refl _
    · rw [outcome_bind_of_ok hout]
      exact hgrows a sight'
  have hfirst := h sight
  generalize hseen : outcome watch sight = seen at hfirst
  generalize hseen' : outcome watch' sight = seen' at hfirst hleads
  cases hfirst with
  | same =>
    rcases seen with ⟨halt | a, sight'⟩
    · rw [outcome_bind_of_error hseen, outcome_bind_of_error hseen']
      exact .same _
    · rw [outcome_bind_of_ok hseen, outcome_bind_of_ok hseen']
      exact hnext a sight'
  | outOfFuel hprinted =>
    rw [outcome_bind_of_error hseen]
    exact .outOfFuel (hprinted.trans hleads.printed)
  | tooDeep hprinted =>
    rw [outcome_bind_of_error hseen]
    exact .tooDeep (hprinted.trans hleads.printed)

/-- Both runs see that a statement is begun. -/
theorem Cut.note (h : Cut watch watch') (place : Place) :
    Cut (note place >>= fun _ => watch) (note place >>= fun _ => watch') := fun sight =>
  h { sight with begun := place :: sight.begun }

/-- Steps for all nodes are cut off where the first of them is. -/
theorem cut_forAll {watch watch' : Nat → Node → Watch Unit}
    (h : ∀ number node, Cut (watch number node) (watch' number node))
    (hgrows : ∀ number node, Grows (watch' number node)) (number : Nat) (nodes : List Node) :
    Cut (forAll watch number nodes) (forAll watch' number nodes) := by
  induction nodes generalizing number with
  | nil => exact .refl _
  | cons first rest ih =>
    exact (h number first).bind (fun _ => ih (number + 1)) fun _ => grows_forAll hgrows _ rest

end Watch

/-- With less fuel and less headroom, a run is cut off at most. -/
theorem Node.cut_watch {fuel fuel' : Nat} {room room' : Headroom} (hfuel : fuel ≤ fuel')
    (hroom : room.Within room') (place : Place) (node : Node) :
    (node.watch fuel room place).Cut (node.watch fuel' room' place) := by
  induction fuel generalizing fuel' room room' place node with
  | zero => exact Watch.cut_outOfFuel (node.grows_watch fuel' room' place)
  | succ fuel ih =>
    obtain ⟨fuel', rfl⟩ : ∃ n, fuel' = n + 1 := ⟨fuel' - 1, by omega⟩
    have hle : fuel ≤ fuel' := by omega
    cases henter : room.enter? with
    | none =>
      rw [Node.watch, henter]
      exact Watch.cut_tooDeep (node.grows_watch (fuel' + 1) room' place) place
    | some inner =>
      obtain ⟨inner', henter', hinner⟩ := hroom.enter henter
      have heval (expression : Node) := Watch.cut_ofEval (expression.cut_eval hinner)
      have hgrows := Node.grows_watch fuel' inner'
      -- A loop goes on as itself with less fuel, in the room in which it was entered.
      have hloop := ih hle hroom place node
      have hloopGrows := node.grows_watch fuel' room' place
      rw [Node.watch, Node.watch, henter, henter']
      apply Watch.Cut.note
      cases node with
      | evaluate expression _ =>
        exact (heval expression).bind (fun _ => .refl _) fun _ => Watch.grows_pure ()
      | print expression _ =>
        exact (heval expression).bind (fun _ => .refl _) fun _ => Watch.grows_print _
      | define name initial _ =>
        exact (heval initial).bind (fun _ => .refl _) fun _ => Watch.grows_store name _
      | block statements _ =>
        exact Watch.cut_forAll (fun _ => ih hle hinner _) (fun _ => hgrows _) 0 statements
      | ifThen condition thenBranch _ =>
        refine (heval condition).bind (fun value => ?_) fun _ =>
          Watch.grows_ite (hgrows _ thenBranch) (Watch.grows_pure ())
        split_ifs
        · exact ih hle hinner _ thenBranch
        · exact .refl _
      | ifElse condition thenBranch elseBranch _ =>
        refine (heval condition).bind (fun value => ?_) fun _ =>
          Watch.grows_ite (hgrows _ thenBranch) (hgrows _ elseBranch)
        split_ifs
        · exact ih hle hinner _ thenBranch
        · exact ih hle hinner _ elseBranch
      | loop condition body _ =>
        refine (heval condition).bind (fun value => ?_) fun _ =>
          Watch.grows_ite ((hgrows _ body).bind fun _ => hloopGrows) (Watch.grows_pure ())
        split_ifs
        · exact (ih hle hinner _ body).bind (fun _ => hloop) fun _ => hloopGrows
        · exact .refl _
      | _ => exact .refl _

/-- With less fuel and less headroom, a run of statements is cut off at most. -/
theorem Node.cut_watchAll {fuel fuel' : Nat} {room room' : Headroom} (hfuel : fuel ≤ fuel')
    (hroom : room.Within room') (statements : List Node) :
    (Node.watchAll fuel room statements).Cut (Node.watchAll fuel' room' statements) :=
  Watch.cut_forAll (fun _ => Node.cut_watch hfuel hroom _)
    (fun _ => Node.grows_watch fuel' room' _) 0 statements

/-! ## Statements that are never begun -/

/-- The second statement is the first one, which stands at the second place, with another statement
at the first place. -/
inductive Node.Replaces (lost : Place) : Place → Node → Node → Prop where
  | here (node node' : Node) : Replaces lost lost node node'
  | ifThen {place : Place} {thenBranch thenBranch' : Node} (condition : Node)
      (h : Replaces lost (0 :: place) thenBranch thenBranch') (line : SourceLine) :
      Replaces lost place (.ifThen condition thenBranch line) (.ifThen condition thenBranch' line)
  | thenBranch {place : Place} {thenBranch thenBranch' : Node} (condition elseBranch : Node)
      (h : Replaces lost (0 :: place) thenBranch thenBranch') (line : SourceLine) :
      Replaces lost place (.ifElse condition thenBranch elseBranch line)
        (.ifElse condition thenBranch' elseBranch line)
  | elseBranch {place : Place} {elseBranch elseBranch' : Node} (condition thenBranch : Node)
      (h : Replaces lost (1 :: place) elseBranch elseBranch') (line : SourceLine) :
      Replaces lost place (.ifElse condition thenBranch elseBranch line)
        (.ifElse condition thenBranch elseBranch' line)
  | loop {place : Place} {body body' : Node} (condition : Node)
      (h : Replaces lost (0 :: place) body body') (line : SourceLine) :
      Replaces lost place (.loop condition body line) (.loop condition body' line)
  | block {place : Place} {node node' : Node} (before after : List Node)
      (h : Replaces lost (before.length :: place) node node') (line : SourceLine) :
      Replaces lost place (.block (before ++ node :: after) line)
        (.block (before ++ node' :: after) line)

namespace Watch

variable {α β : Type} {lost : Place} {watch : Watch α} {next : α → Watch β}

/-- The second step of execution does what the first one does, unless a statement is seen to be
begun at the given place. -/
def Spares (lost : Place) (watch : Watch α) (action action' : Exec α) : Prop :=
  ∀ sight, lost ∉ (outcome watch sight).2.begun →
    Exec.outcome action' sight.machine = Exec.outcome action sight.machine

/-- A step does what it does, whatever is begun. -/
theorem Spares.refl (watch : Watch α) (action : Exec α) : Spares lost watch action action :=
  fun _ _ => rfl

/-- Steps in a row do what others do, unless the statement is begun in one of them. -/
theorem Spares.bind {action action' : Exec α} {step step' : α → Exec β}
    (h : Spares lost watch action action') (hshows : Shows watch action)
    (hnext : ∀ a, Spares lost (next a) (step a) (step' a)) (hgrows : ∀ a, Grows (next a)) :
    Spares lost (watch >>= next) (action >>= step) (action' >>= step') := by
  intro sight hlost
  rcases hout : outcome watch sight with ⟨halt | a, sight'⟩
  · rw [outcome_bind_of_error hout] at hlost
    have hsame := h sight (by rwa [hout])
    rw [Exec.outcome_bind, Exec.outcome_bind, hsame, hshows sight, hout]
    cases halt <;> rfl
  · rw [outcome_bind_of_ok hout] at hlost
    have hbegun : lost ∉ sight'.begun := fun hmem => hlost ((hgrows a sight').begun.mem hmem)
    have hsame := h sight (by rwa [hout])
    rw [Exec.outcome_bind, Exec.outcome_bind, hsame, hshows sight, hout]
    exact hnext a sight' hlost

/-- It changes nothing to see that a statement is begun. -/
theorem Spares.note {action action' : Exec α} (h : Spares lost watch action action')
    (place : Place) : Spares lost (note place >>= fun _ => watch) action action' := fun sight =>
  h { sight with begun := place :: sight.begun }

/-- One of several statements in order may be another one if that does not matter for it. -/
theorem spares_forAll {watch : Nat → Node → Watch Unit} {step : Node → Exec Unit}
    (hshows : ∀ number node, Shows (watch number node) (step node))
    (hgrows : ∀ number node, Grows (watch number node)) {number : Nat} {before : List Node}
    {node node' : Node} (after : List Node)
    (h : Spares lost (watch (number + before.length) node) (step node) (step node')) :
    Spares lost (forAll watch number (before ++ node :: after))
      (Exec.forAll step (before ++ node :: after))
      (Exec.forAll step (before ++ node' :: after)) := by
  induction before generalizing number with
  | nil => exact h.bind (hshows _ _) (fun _ => .refl _ _) fun _ => grows_forAll hgrows _ after
  | cons first rest ih =>
    have hnumber : number + (first :: rest).length = number + 1 + rest.length := by
      rw [List.length_cons]
      omega
    rw [hnumber] at h
    exact (Spares.refl _ _).bind (hshows number first) (fun _ => ih h) fun _ =>
      grows_forAll hgrows _ _

end Watch

/-- A statement that is not begun may be any other one. -/
theorem Node.Replaces.spares {lost place : Place} {node node' : Node}
    (h : Replaces lost place node node') (fuel : Nat) (room : Headroom) :
    Watch.Spares lost (node.watch fuel room place) (node.exec fuel room)
      (node'.exec fuel room) := by
  induction fuel generalizing room place node node' with
  | zero => exact fun _ _ => rfl
  | succ fuel ih =>
    have hgrows := Node.grows_watch fuel
    have hshows := Node.shows_watch fuel
    -- A loop goes on as itself with less fuel, in the room in which it was entered.
    have hloop := ih h room
    rcases henter : room.enter? with _ | inner
    · -- Without headroom all statements fail alike.
      intro sight _
      rw [Node.exec, Node.exec, henter]
    have heval (condition : Node) := Watch.shows_ofExec (.ofEval (condition.eval inner))
    cases h with
    | here => exact fun sight hlost => (hlost (node.mem_begun_watch fuel room lost sight)).elim
    | ifThen condition hthen line =>
      rw [Node.watch, Node.exec, Node.exec, henter]
      apply Watch.Spares.note
      refine (Watch.Spares.refl _ _).bind (heval condition) (fun value => ?_) fun _ =>
        Watch.grows_ite (hgrows inner _ _) (Watch.grows_pure ())
      split_ifs
      · exact ih hthen inner
      · exact .refl _ _
    | thenBranch condition elseBranch hthen line =>
      rw [Node.watch, Node.exec, Node.exec, henter]
      apply Watch.Spares.note
      refine (Watch.Spares.refl _ _).bind (heval condition) (fun value => ?_) fun _ =>
        Watch.grows_ite (hgrows inner _ _) (hgrows inner _ _)
      split_ifs
      · exact ih hthen inner
      · exact .refl _ _
    | elseBranch condition thenBranch helse line =>
      rw [Node.watch, Node.exec, Node.exec, henter]
      apply Watch.Spares.note
      refine (Watch.Spares.refl _ _).bind (heval condition) (fun value => ?_) fun _ =>
        Watch.grows_ite (hgrows inner _ _) (hgrows inner _ _)
      split_ifs
      · exact .refl _ _
      · exact ih helse inner
    | loop condition hbody line =>
      rw [Node.watch, Node.exec, Node.exec, henter]
      apply Watch.Spares.note
      refine (Watch.Spares.refl _ _).bind (heval condition) (fun value => ?_) fun _ =>
        Watch.grows_ite ((hgrows inner _ _).bind fun _ => hgrows room _ _) (Watch.grows_pure ())
      split_ifs
      · exact (ih hbody inner).bind (hshows inner _ _) (fun _ => hloop) fun _ => hgrows room _ _
      · exact .refl _ _
    | block before after hnode line =>
      rw [Node.watch, Node.exec, Node.exec, henter]
      apply Watch.Spares.note
      apply Watch.spares_forAll (fun _ => hshows inner _) (fun _ => hgrows inner _) after
      rw [Nat.zero_add]
      exact ih hnode inner

/-- The lines printed by a run of the statements on a machine, and what was printed before, as far
as the fuel goes. -/
def Node.printedAll (fuel : Nat) (room : Headroom) (statements : List Node) (machine : Machine) :
    List String :=
  (Watch.outcome (Node.watchAll fuel room statements) ⟨machine, []⟩).2.machine.printed.toList

/-- Where a run of the statements on a machine begins statements, as far as the fuel goes. -/
def Node.begunAll (fuel : Nat) (room : Headroom) (statements : List Node) (machine : Machine) :
    List Place :=
  (Watch.outcome (Node.watchAll fuel room statements) ⟨machine, []⟩).2.begun

/-- What was seen last of a run that has come to its end is what it leaves behind. -/
theorem Node.machine_watchAll_of_outcome {fuel : Nat} {room : Headroom} {statements : List Node}
    {machine machine' : Machine} {result : Except Failure Unit}
    (h : Exec.outcome (Node.execAll fuel room statements) machine = some (result, machine')) :
    (Watch.outcome (Node.watchAll fuel room statements) ⟨machine, []⟩).2.machine = machine' := by
  have hshows := Node.shows_watchAll fuel room statements ⟨machine, []⟩
  rw [h] at hshows
  rcases hseen : Watch.outcome (Node.watchAll fuel room statements) ⟨machine, []⟩ with
    ⟨(failure | _) | _, sight⟩ <;> rw [hseen] at hshows <;> cases hshows
  · rfl
  · rfl

/-- What a run that has come to its end has printed is what was seen to be printed. -/
theorem Node.printedAll_of_outcome {fuel : Nat} {room : Headroom} {statements : List Node}
    {machine machine' : Machine} {result : Except Failure Unit}
    (h : Exec.outcome (Node.execAll fuel room statements) machine = some (result, machine')) :
    Node.printedAll fuel room statements machine = machine'.printed.toList := by
  unfold Node.printedAll
  rw [Node.machine_watchAll_of_outcome h]

/-- A run that is not too deep for a headroom is the same run in more headroom. -/
theorem Node.outcome_execAll_of_within {fuel : Nat} {room room' : Headroom}
    (hroom : room.Within room') {statements : List Node} {machine machine' : Machine}
    {result : Except Failure Unit}
    (h : Exec.outcome (Node.execAll fuel room statements) machine = some (result, machine'))
    (hresult : result ≠ .error .tooDeep) :
    Exec.outcome (Node.execAll fuel room' statements) machine = some (result, machine') := by
  have hcut := Node.cut_watchAll (Nat.le_refl fuel) hroom statements ⟨machine, []⟩
  have hshows := Node.shows_watchAll fuel room statements ⟨machine, []⟩
  have hshows' := Node.shows_watchAll fuel room' statements ⟨machine, []⟩
  rw [hshows']
  apply hcut.finished_eq _ hresult
  rw [← hshows, h]

/-- What a run has printed, whatever became of it, is printed first with more fuel and headroom. -/
theorem Node.printed_prefix_printedAll {fuel fuel' : Nat} (hfuel : fuel ≤ fuel')
    {room room' : Headroom} (hroom : room.Within room') {statements : List Node}
    {machine machine' : Machine} {result : Except Failure Unit}
    (h : Exec.outcome (Node.execAll fuel room statements) machine = some (result, machine')) :
    machine'.printed.toList <+: Node.printedAll fuel' room' statements machine := by
  rw [← Node.printedAll_of_outcome h]
  exact (Node.cut_watchAll hfuel hroom statements ⟨machine, []⟩).printed

/-- A limit on the depth cuts runs off and does nothing else. A run that is not too deep for it is
the run without a limit, and with every larger limit. A run that is too deep has printed what the
run without a limit prints first, whether that ends or not. A statement that is never begun may be
any other one, however deep. -/
theorem Node.depth_limit_cuts (statements : List Node) (machine : Machine) (limit : Nat) :
    (∀ fuel result machine',
      Exec.outcome (Node.execAll fuel (.levels limit) statements) machine =
        some (result, machine') →
      result ≠ .error .tooDeep →
        Exec.outcome (Node.execAll fuel .unlimited statements) machine = some (result, machine') ∧
        ∀ limit' ≥ limit, Exec.outcome (Node.execAll fuel (.levels limit') statements) machine =
          some (result, machine')) ∧
    (∀ fuel machine',
      Exec.outcome (Node.execAll fuel (.levels limit) statements) machine =
        some (.error .tooDeep, machine') →
        (∀ fuel' ≥ fuel,
          machine'.printed.toList <+: Node.printedAll fuel' .unlimited statements machine) ∧
        ∀ fuel' result last,
          Exec.outcome (Node.execAll fuel' .unlimited statements) machine = some (result, last) →
          machine'.printed.toList <+: last.printed.toList) ∧
    ∀ fuel lost before node node' after, statements = before ++ node :: after →
      Node.Replaces lost [before.length] node node' →
      lost ∉ Node.begunAll fuel (.levels limit) statements machine →
        Exec.outcome (Node.execAll fuel (.levels limit) (before ++ node' :: after)) machine =
          Exec.outcome (Node.execAll fuel (.levels limit) statements) machine := by
  refine ⟨fun fuel result machine' hout hresult => ⟨?_, fun limit' hle => ?_⟩,
    fun fuel machine' hout => ⟨fun fuel' hle => ?_, fun fuel' result last hlast => ?_⟩,
    fun fuel lost before node node' after hstatements hreplaces hlost => ?_⟩
  · exact Node.outcome_execAll_of_within (.unlimited _) hout hresult
  · exact Node.outcome_execAll_of_within (.levels hle) hout hresult
  · exact Node.printed_prefix_printedAll hle (.unlimited _) hout
  · -- With the fuel of both runs the run without a limit ends as it did.
    have hmore := Node.extends_execAll (Nat.le_max_right fuel fuel') .unlimited statements _ _ hlast
    rw [← Node.printedAll_of_outcome hmore]
    exact Node.printed_prefix_printedAll (Nat.le_max_left fuel fuel') (.unlimited _) hout
  · subst hstatements
    refine Watch.spares_forAll (fun _ => Node.shows_watch fuel (.levels limit) _)
      (fun _ => Node.grows_watch fuel (.levels limit) _) after ?_ ⟨machine, []⟩ hlost
    rw [Nat.zero_add]
    exact hreplaces.spares fuel (.levels limit)

/-- The statement `print null == null == null;`, which is four levels deep. -/
def Node.deepPrint : Node :=
  .print (.binary .equal (.binary .equal (.literal .null none) (.literal .null none) none)
    (.literal .null none) none) none

/-- The statements `print null; if (null) print null == null == null;`. -/
def Node.guardedPrint : List Node :=
  [.print (.literal .null none) none, .ifThen (.literal .null none) Node.deepPrint none]

/-- The same with a marker in the place of the deep statement. -/
def Node.guardedMarker : List Node :=
  [.print (.literal .null none) none, .ifThen (.literal .null none) (.skipped "" none) none]

/-- Three levels suffice for a deep statement that is not run. Where it is run in the end, what was
printed before comes first in what is printed without a limit. -/
theorem Node.depth_limit_cuts_deepPrint :
    (Exec.outcome (Node.execAll 2 (.levels 3) Node.guardedPrint) ⟨∅, #[]⟩ =
        some (.ok (), ⟨∅, #["null"]⟩) ∧
      Exec.outcome (Node.execAll 2 .unlimited Node.guardedPrint) ⟨∅, #[]⟩ =
        some (.ok (), ⟨∅, #["null"]⟩)) ∧
    (Exec.outcome (Node.execAll 2 (.levels 3) (Node.guardedPrint ++ [Node.deepPrint])) ⟨∅, #[]⟩ =
        some (.error .tooDeep, ⟨∅, #["null"]⟩) ∧
      ["null"] <+: Node.printedAll 3 .unlimited (Node.guardedPrint ++ [Node.deepPrint]) ⟨∅, #[]⟩) ∧
    ([0, 1] ∉ Node.begunAll 2 (.levels 3) Node.guardedPrint ⟨∅, #[]⟩ ∧
      Exec.outcome (Node.execAll 2 (.levels 3) Node.guardedMarker) ⟨∅, #[]⟩ =
        Exec.outcome (Node.execAll 2 (.levels 3) Node.guardedPrint) ⟨∅, #[]⟩) := by
  have hshallow : Exec.outcome (Node.execAll 2 (.levels 3) Node.guardedPrint) ⟨∅, #[]⟩ =
    some (.ok (), ⟨∅, #["null"]⟩) := rfl
  have hdeep : Exec.outcome (Node.execAll 2 (.levels 3) (Node.guardedPrint ++ [Node.deepPrint]))
    ⟨∅, #[]⟩ = some (.error .tooDeep, ⟨∅, #["null"]⟩) := rfl
  have hlost : [0, 1] ∉ Node.begunAll 2 (.levels 3) Node.guardedPrint ⟨∅, #[]⟩ := by decide
  have hreplaces : Node.Replaces [0, 1] [1] (.ifThen (.literal .null none) Node.deepPrint none)
      (.ifThen (.literal .null none) (.skipped "" none) none) :=
    .ifThen _ (.here _ _) none
  obtain ⟨hsame, -, hspared⟩ := Node.depth_limit_cuts Node.guardedPrint ⟨∅, #[]⟩ 3
  obtain ⟨-, hcut, -⟩ :=
    Node.depth_limit_cuts (Node.guardedPrint ++ [Node.deepPrint]) ⟨∅, #[]⟩ 3
  exact ⟨⟨hshallow, (hsame 2 _ _ hshallow (by simp)).1⟩, ⟨hdeep, (hcut 2 _ hdeep).1 3 (by decide)⟩,
    ⟨hlost, hspared 2 [0, 1] [_] _ _ [] rfl hreplaces hlost⟩⟩

end ScriptKit
