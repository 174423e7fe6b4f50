import TraceWeave.Proofs.Evolution
import TraceWeave.Proofs.HandleScope
import TraceWeave.Proofs.Insertion
import TraceWeave.Proofs.Outcome

/-!
What the second pass plans for a file. The edits of a declaration come in five parts: its parameter,
the making of the handle, literals, calls, and statements that waited. Each part is described here by
the places it is about and by what makes the handle known there.
-/
namespace TraceWeave

open Go (Node Place Token)
open Go.Node (Annotated)
open Go.Place (Below)

theorem Source.IsParsed.annotated {source : Source} (parsed : source.IsParsed) :
    Annotated (Token.Clear source.text) source.rootPlace.node := by
  change Annotated _ source.tree.root
  rw [parsed]
  exact Go.Tree.parse_annotated source.text

/-! Calls. -/

/-- A call that passes the handle on, or what stands for it, to a function. -/
structure Passed where
  call : Place
  callee : GraphFunction
  list : Node
  argument : String

namespace Passed

def edit (passed : Passed) : Edit := Edit.addToArguments passed.list passed.callee.handleIndex passed.argument

def target (passed : Passed) : Place × GraphFunction := (passed.call, passed.callee)

/-- The list is the one of the call. -/
structure Listed (source : String) (passed : Passed) : Prop where
  annotated : Annotated (Token.Clear source) passed.call.node
  found : passed.call.node.child? .arguments = some passed.list
  opens : passed.list.kind.opens = true

end Passed

/-- Calls at or below a place that name functions which take the handle, with these functions. -/
def widenedCalls (graph : CallGraph) (widened : Nat → Bool) (here : Surroundings) (source : String) (top : Place) :
    List (Place × GraphFunction) :=
  top.descendants.filterMap fun call =>
    (widenedCallee? graph widened here source call).map fun callee => (call, callee)

section
variable {graph : CallGraph} {widened : Nat → Bool} {here : Surroundings} {source : String} {top call : Place}
  {callee : GraphFunction}

theorem kind_of_widenedCallee? (named : widenedCallee? graph widened here source call = some callee) :
    call.kind = .callExpression := by
  unfold widenedCallee? at named
  by_contra other
  simp [other] at named

/-- A call that names a function has a list for one more argument. -/
theorem exists_listed (annotated : Annotated (Token.Clear source) call.node)
    (named : widenedCallee? graph widened here source call = some callee) (argument : String) :
    ∃ passed : Passed, passed.target = (call, callee) ∧ passed.argument = argument ∧ passed.Listed source ∧
      Edit.addArgument? call.node callee.handleIndex argument = some passed.edit := by
  obtain ⟨list, found, kind⟩ := annotated.argumentList (kind_of_widenedCallee? named)
  refine ⟨⟨call, callee, list, argument⟩, rfl, rfl, ⟨annotated, found, by rw [kind]; rfl⟩, ?_⟩
  rw [Edit.addArgument?, found]
  rfl

/-- One edit for each call, in order. -/
theorem exists_passed_nil {places : List Place} (annotated : ∀ place ∈ places, Annotated (Token.Clear source) place.node) :
    ∃ passed : List Passed,
      (places.filterMap fun call => do
        let callee ← widenedCallee? graph widened here source call
        Edit.addArgument? call.node callee.handleIndex "nil") = passed.map Passed.edit ∧
      (places.filterMap fun call => (widenedCallee? graph widened here source call).map fun callee => (call, callee)) =
        passed.map Passed.target ∧
      ∀ one ∈ passed, one.Listed source ∧ one.argument = "nil" := by
  induction places with
  | nil => exact ⟨[], rfl, rfl, by simp⟩
  | cons call places ih =>
      obtain ⟨formed, annotated⟩ := List.forall_mem_cons.1 annotated
      obtain ⟨passed, edits, targets, each⟩ := ih annotated
      cases named : widenedCallee? graph widened here source call with
      | none =>
          refine ⟨passed, ?_, ?_, each⟩
          · rw [List.filterMap_cons_none (by rw [named]; rfl), edits]
          · rw [List.filterMap_cons_none (by rw [named]; rfl), targets]
      | some callee =>
          obtain ⟨one, target, argument, listed, added⟩ := exists_listed formed named "nil"
          refine ⟨one :: passed, ?_, ?_, ?_⟩
          · rw [List.filterMap_cons_some (by rw [named]; exact added), edits, List.map_cons]
          · rw [List.filterMap_cons_some (by rw [named]; rfl), targets, List.map_cons, target]
          · exact List.forall_mem_cons.2 ⟨⟨listed, argument⟩, each⟩

/-- Edits of calls, one item after the other. -/
theorem exists_passed_flatMap {α : Type} {items : List α} {edits : α → List Edit}
    {targets : α → List (Place × GraphFunction)} {holds : Passed → Prop}
    (each : ∀ item ∈ items, ∃ passed : List Passed, edits item = passed.map Passed.edit ∧
      targets item = passed.map Passed.target ∧ ∀ one ∈ passed, holds one) :
    ∃ passed : List Passed, items.flatMap edits = passed.map Passed.edit ∧
      items.flatMap targets = passed.map Passed.target ∧ ∀ one ∈ passed, holds one := by
  induction items with
  | nil => exact ⟨[], rfl, rfl, by simp⟩
  | cons item items ih =>
      obtain ⟨first, each⟩ := List.forall_mem_cons.1 each
      obtain ⟨passed, edited, targeted, held⟩ := first
      obtain ⟨passed', edited', targeted', held'⟩ := ih each
      refine ⟨passed ++ passed', ?_, ?_, ?_⟩
      · rw [List.flatMap_cons, List.map_append, edited, edited']
      · rw [List.flatMap_cons, List.map_append, targeted, targeted']
      · intro one member
        rcases List.mem_append.1 member with earlier | later
        · exact held one earlier
        · exact held' one later

end

/-! Declarations in their places. -/

/-- A part is a place below the one it belongs to. -/
theorem below_of_mem_parts {top place : Place} (member : place ∈ top.parts) : Below top place := by
  obtain ⟨node, part, rfl⟩ := List.mem_map.1 member
  have inner := Edit.mem_parts part
  exact Below.here.inside (List.mem_filter.2 ⟨inner.1, inner.2.1⟩)

namespace FunctionDecl

variable {source : Source} {decl : FunctionDecl} {body list : Place}

/-- A declaration is a place at file level, with the children that belong to it. -/
theorem of_mem_all (member : decl ∈ all source) :
    decl.place ∈ source.rootPlace.parts ∧ decl.place.kind.isFunction = true ∧
      decl.parameters = decl.place.child? .parameters ∧ decl.body = decl.place.child? .body := by
  obtain ⟨place, listed, found⟩ := List.mem_filterMap.1 member
  unfold ofPlace? at found
  split at found
  · rename_i kind
    obtain ⟨name, _, result⟩ := Option.bind_eq_some_iff.1 found
    cases result
    exact ⟨listed, by rw [kind]; rfl, rfl, rfl⟩
  · rename_i kind
    obtain ⟨⟨type, holder⟩, _, found⟩ := Option.bind_eq_some_iff.1 found
    obtain ⟨name, _, result⟩ := Option.bind_eq_some_iff.1 found
    cases result
    exact ⟨listed, by rw [kind]; rfl, rfl, rfl⟩
  · cases found

/-- A declaration is known by its place. -/
theorem ofPlace?_place {text : String} {place : Place} (found : ofPlace? text place = some decl) :
    decl.place = place := by
  unfold ofPlace? at found
  split at found
  · obtain ⟨name, _, result⟩ := Option.bind_eq_some_iff.1 found
    cases result
    rfl
  · obtain ⟨⟨type, holder⟩, _, found⟩ := Option.bind_eq_some_iff.1 found
    obtain ⟨name, _, result⟩ := Option.bind_eq_some_iff.1 found
    cases result
    rfl
  · cases found

theorem parts_pairwise (parsed : source.IsParsed) : source.rootPlace.parts.Pairwise fun a b => a.stop ≤ b.start :=
  List.pairwise_map.2 (Edit.parts_pairwise parsed.annotated)

theorem all_pairwise (parsed : source.IsParsed) : (all source).Pairwise fun a b => a.place.stop ≤ b.place.start := by
  unfold all
  rw [List.pairwise_filterMap]
  refine (parts_pairwise parsed).imp ?_
  intro a b before decl made decl' made'
  rw [ofPlace?_place made, ofPlace?_place made']
  exact before

theorem annotated_of_mem_parts (parsed : source.IsParsed) {place : Place} (member : place ∈ source.rootPlace.parts) :
    Annotated (Token.Clear source.text) place.node := by
  obtain ⟨node, part, rfl⟩ := List.mem_map.1 member
  exact parsed.annotated.children node (Edit.mem_parts part).1

theorem annotated_body (parsed : source.IsParsed) (member : decl ∈ all source) (found : decl.body = some body) :
    Annotated (Token.Clear source.text) body.node := by
  obtain ⟨listed, _, _, child⟩ := of_mem_all member
  obtain ⟨node, present, rfl⟩ := Option.map_eq_some_iff.1 (child.symm.trans found)
  exact (annotated_of_mem_parts parsed listed).child? present

theorem closed_body (member : decl ∈ all source) (found : decl.body = some body) : HandleScope.Closed body := by
  obtain ⟨_, kind, _, child⟩ := of_mem_all member
  obtain ⟨node, _, rfl⟩ := Option.map_eq_some_iff.1 (child.symm.trans found)
  intro outer head
  cases head
  exact kind

/-- A declaration has its list of parameters. -/
theorem exists_parameters (parsed : source.IsParsed) (member : decl ∈ all source) :
    ∃ list, decl.parameters = some list ∧ Annotated (Token.Clear source.text) list.node ∧
      list.node.kind = .parameterList := by
  obtain ⟨listed, kind, child, _⟩ := of_mem_all member
  have annotated := annotated_of_mem_parts parsed listed
  have needed : (.parameters, .parameterList) ∈ decl.place.node.kind.needed := by
    change decl.place.node.kind.isFunction = true at kind
    cases is : decl.place.node.kind <;> simp [is, Go.Kind.isFunction, Go.Kind.needed] at kind ⊢
  obtain ⟨node, found, right⟩ := annotated.shaped.needed _ _ needed
  refine ⟨decl.place.inside node, ?_, annotated.child? found, right⟩
  rw [child, Place.child?, found]
  rfl

/-- The body of a declaration is a block inside it. -/
theorem body_spec (parsed : source.IsParsed) (member : decl ∈ all source) (found : decl.body = some body) :
    body.node.kind = .block ∧ body.node ∈ decl.place.node.children ∧ body.around = [decl.place.node, source.root] := by
  obtain ⟨listed, kind, _, child⟩ := of_mem_all member
  obtain ⟨item, _, place⟩ := List.mem_map.1 listed
  obtain ⟨node, present, rfl⟩ := Option.map_eq_some_iff.1 (child.symm.trans found)
  have inside := List.mem_of_find?_eq_some present
  refine ⟨?_, inside, ?_⟩
  · have role := List.find?_some present
    exact (annotated_of_mem_parts parsed listed).shaped.bodied kind node inside (beq_iff_eq.1 role)
  · rw [Place.inside, ← place]
    rfl

/-- A child of a declaration is a place of the file. -/
theorem below_child? (member : decl ∈ all source) {role : Go.Role} (found : decl.place.child? role = some body)
    (named : body.kind.isNamed = true) : Below source.rootPlace body := by
  obtain ⟨node, present, rfl⟩ := Option.map_eq_some_iff.1 found
  exact (below_of_mem_parts (of_mem_all member).1).inside
    (List.mem_filter.2 ⟨List.mem_of_find?_eq_some present, named⟩)

theorem below_body (parsed : source.IsParsed) (member : decl ∈ all source) (found : decl.body = some body) :
    Below source.rootPlace body := by
  obtain ⟨_, _, _, child⟩ := of_mem_all member
  obtain ⟨kind, _⟩ := body_spec parsed member found
  refine below_child? member (child.symm.trans found) ?_
  change body.node.kind.isNamed = true
  rw [kind]
  rfl

end FunctionDecl

namespace HandleSite

variable {site : HandleSite} {here : Surroundings} {top : Place}

/-- How a call passes the handle, where `scope` has the notes at the end. -/
structure Passes (site : HandleSite) (scope : HandleScope) (passed : Passed) : Prop where
  listed : passed.Listed site.source.text
  argument : passed.argument = "nil" ∨
    passed.argument = (if isLaunched passed.call.around then site.goroutineHandle else site.handle) ∧
      scope.Grounded passed.call.around

theorem Passes.grows {scope scope' : HandleScope} {passed : Passed} (passes : site.Passes scope passed)
    (grows : scope.Grows scope') : site.Passes scope' passed := by
  refine ⟨passes.listed, ?_⟩
  rcases passes.argument with nothing | ⟨argument, grounded⟩
  · exact .inl nothing
  · exact .inr ⟨argument, grounded.grows grows⟩

/-- Calls have been looked at, in order: each that names a function which takes the handle has its edit. -/
structure CallsPlanned (site : HandleSite) (here : Surroundings) (top : Place) (places : List Place)
    (before after : List Edit × HandleScope) (passed : List Passed) : Prop where
  grows : before.2.Grows after.2
  tracks : after.2.Tracks top
  edits : after.1 = before.1 ++ passed.map Passed.edit
  targets : passed.map Passed.target = places.filterMap fun call =>
    (widenedCallee? site.graph site.plan.widens here site.source.text call).map fun callee => (call, callee)
  each : ∀ one ∈ passed, site.Passes after.2 one

theorem callEdit_planned (here : Surroundings) (annotated : Annotated (Token.Clear site.source.text) top.node)
    (closed : HandleScope.Closed top) {state : List Edit × HandleScope} (tracks : state.2.Tracks top) {call : Place}
    (below : Below top call) :
    ∃ passed, site.CallsPlanned here top [call] state (site.callEdit here state call) passed := by
  unfold callEdit
  split
  · rename_i named
    refine ⟨[], .refl _, tracks, by simp, ?_, by simp⟩
    rw [List.filterMap_cons_none (by rw [named]; rfl)]
    rfl
  · rename_i callee named
    have answered := HandleScope.availableAt_answered annotated closed tracks below
    dsimp only
    generalize state.2.availableAt call = result at answered ⊢
    obtain ⟨one, target, argument, listed, added⟩ := exists_listed (below.annotated annotated) named
      (if !result.1 then "nil" else if isLaunched call.around then site.goroutineHandle else site.handle)
    have same : one.call = call := congrArg Prod.fst target
    refine ⟨[one], answered.grows, answered.tracks, ?_, ?_, ?_⟩
    · rw [added]
      rfl
    · rw [List.filterMap_cons_some (by rw [named]; rfl), List.map_singleton, target]
      rfl
    · intro other member
      cases List.mem_singleton.1 member
      refine ⟨listed, ?_⟩
      rw [argument, same]
      cases known : result.1 with
      | false => exact .inl (by simp)
      | true => exact .inr ⟨by simp, answered.grounded known⟩

theorem foldl_callEdit_planned (here : Surroundings) (annotated : Annotated (Token.Clear site.source.text) top.node)
    (closed : HandleScope.Closed top) {state : List Edit × HandleScope} (tracks : state.2.Tracks top)
    {places : List Place} (below : ∀ place ∈ places, Below top place) :
    ∃ passed, site.CallsPlanned here top places state (places.foldl (site.callEdit here) state) passed := by
  induction places generalizing state with
  | nil => exact ⟨[], .refl _, tracks, by simp, rfl, by simp⟩
  | cons call places ih =>
      obtain ⟨first, below⟩ := List.forall_mem_cons.1 below
      obtain ⟨passed, one⟩ := callEdit_planned here annotated closed tracks first
      obtain ⟨passed', rest⟩ := ih one.tracks below
      refine ⟨passed ++ passed', one.grows.trans rest.grows, rest.tracks, ?_, ?_, ?_⟩
      · rw [List.foldl_cons, rest.edits, one.edits, List.map_append, List.append_assoc]
      · rw [List.map_append, one.targets, rest.targets, ← List.filterMap_append]
        rfl
      · intro one' member
        rcases List.mem_append.1 member with earlier | later
        · exact (one.each one' earlier).grows rest.grows
        · exact rest.each one' later

/-! Literals. -/

/-- The call that launches a literal stands around it. -/
theorem below_launch {top : Place} {literal call : Node} {around : List Node} (below : Below top ⟨literal, around⟩)
    (apart : top.node.kind ≠ .funcLiteral) (is : literal.kind = .funcLiteral)
    (launched : launchOf? literal around = some call) :
    ∃ outer, around = call :: outer ∧ Below top ⟨call, outer⟩ ∧ call.kind = .callExpression := by
  unfold launchOf? at launched
  split at launched
  · rename_i call' outer
    split at launched
    · rename_i test
      cases launched
      rcases below.parent with rfl | ⟨node, rest, same, _, inside⟩
      · exact absurd is apart
      · cases same
        simp only [Bool.and_eq_true, beq_iff_eq] at test
        exact ⟨_, rfl, inside, test.1.1⟩
    · cases launched
  · cases launched

/-- Only literals that are launched get a parameter at a position. -/
theorem launchOf?_of_judge {source handle : String} {http : Option String} {literal launch : Node}
    {around : List Node} {index : Nat} (judged : LiteralKind.judge source handle http literal around = .launched launch index) :
    launchOf? literal around = some launch := by
  unfold LiteralKind.judge at judged
  dsimp only at judged
  split at judged
  · cases judged
  · split at judged
    · rename_i call found
      split at judged
      · cases judged
        exact found
      · cases judged
    · split at judged
      · cases judged
      · cases judged

/-! Statements that waited. -/

/-- Code that times a request: its start goes before the statement, where the handle is known, and its
end after it. -/
inductive Segment (site : HandleSite) (top : Place) (scope : HandleScope) : Edit → Prop where
  | start {block statement : Place} (below : Below top block) (kind : block.kind = .block)
      (part : statement ∈ block.parts) (grounded : scope.Grounded statement.around) (name function : String) : Segment site top scope (Edit.addBefore site.source.text statement.node
        (name ++ " := " ++ site.handle ++ ".StartSegment(\"http." ++ function ++ "\")"))
  | stop {block statement : Place} (below : Below top block) (part : statement ∈ block.parts) (name : String) :
      Segment site top scope (Edit.addAfter site.source.text statement.node (name ++ ".End()"))

theorem Segment.grows {scope scope' : HandleScope} {edit : Edit} (segment : Segment site top scope edit)
    (grows : scope.Grows scope') : Segment site top scope' edit := by
  cases segment with
  | start below kind part grounded name function => exact .start below kind part (grounded.grows grows) name function
  | stop below part name => exact .stop below part name

/-- A statement and its view belong together. -/
theorem mem_viewsOf {statements : List Place} {place : Place} {view : StatementView}
    (member : (place, view) ∈ site.viewsOf statements) :
    place ∈ statements ∧ view.node = place.node ∧ view.source = site.source.text := by
  unfold viewsOf at member
  obtain ⟨index, bound, same⟩ := List.mem_iff_getElem.1 member
  rw [List.getElem_zip] at same
  simp only [StatementView.ofSequence, List.getElem_map, List.getElem_zipIdx, Prod.mk.injEq] at same
  obtain ⟨rfl, rfl⟩ := same
  exact ⟨List.getElem_mem _, rfl, rfl⟩

/-- In the built-in catalog requests are what waits for the handle. -/
theorem deferredFor?_builtIn (builtIn : site.setup.catalog = Catalog.builtIn) {isMain : Bool} {view : StatementView}
    {integration : Integration} (found : site.deferredFor? isMain view = some integration) :
    integration = Http.client := by
  have test := List.find?_some found
  obtain ⟨index, _, listed⟩ := List.mem_filterMap.1 (List.mem_of_find?_eq_some found)
  rw [builtIn] at listed
  have member : integration ∈ Catalog.builtIn := List.mem_of_getElem? listed
  simp only [Catalog.builtIn, List.mem_cons, List.not_mem_nil, or_false] at member
  rcases member with rfl | rfl | rfl | rfl
  · cases test
  · cases test
  · cases test
  · rfl

/-- What is generated for a request. -/
theorem generateClient_toEdits {view : StatementView} {names : AgentNames} {injection : Injection}
    {supply supply' : NameSupply} (accepted : (Http.request? view).isSome = true)
    (done : Http.generateClient view names supply = (.ok injection, supply')) :
    injection.imports = [] ∧ ∃ name function, injection.toEdits view.source view.node =
      [Edit.addBefore view.source view.node (name ++ " := " ++ names.handle ++ ".StartSegment(\"http." ++ function ++ "\")"),
        Edit.addAfter view.source view.node (name ++ ".End()")] := by
  unfold Http.generateClient at done
  obtain ⟨function, asked⟩ := Option.isSome_iff_exists.1 accepted
  rw [asked] at done
  obtain ⟨name, middle, _, done⟩ := Naming.bind_eq_ok done
  cases Naming.pure_eq_ok done
  exact ⟨rfl, name, function, rfl⟩

/-- A statement whose code needs the handle and is not there. -/
def Waits (site : HandleSite) (isMain : Bool) (view : StatementView) : Prop :=
  ∃ integration, site.deferredFor? isMain view = some integration ∧ integration.isDone view = false

/-- What becomes of one statement: where it waits, it is asked whether the handle is known, and if so, its request is
timed. -/
theorem deferredStatement_cases (builtIn : site.setup.catalog = Catalog.builtIn) {isMain : Bool} {place : Place}
    {view : StatementView} {state next : HandleEdits × HandleScope} {supply supply' : NameSupply}
    (done : site.deferredStatement isMain state (place, view) supply = (.ok next, supply')) :
    (¬ site.Waits isMain view ∧ next = state) ∨
      (site.Waits isMain view ∧ next.2 = (state.2.availableAt place).2 ∧ next.1.imports = state.1.imports ∧ ∃ new,
        next.1.edits = state.1.edits ++ new ∧
          ((state.2.availableAt place).1 = false ∧ new = [] ∨ (state.2.availableAt place).1 = true ∧ ∃ name function,
            new = [Edit.addBefore view.source view.node
                (name ++ " := " ++ site.handle ++ ".StartSegment(\"http." ++ function ++ "\")"),
              Edit.addAfter view.source view.node (name ++ ".End()")])) := by
  unfold deferredStatement at done
  dsimp only at done
  cases found : site.deferredFor? isMain view with
  | none =>
      rw [found] at done
      cases Naming.pure_eq_ok done
      refine .inl ⟨?_, rfl⟩
      rintro ⟨integration, other, _⟩
      cases found.symm.trans other
  | some integration =>
      rw [found] at done
      cases deferredFor?_builtIn builtIn found
      dsimp only at done
      by_cases ready : Http.client.isDone view = true
      · rw [if_pos ready] at done
        cases Naming.pure_eq_ok done
        refine .inl ⟨?_, rfl⟩
        rintro ⟨integration, other, waits⟩
        cases found.symm.trans other
        rw [ready] at waits
        cases waits
      · rw [if_neg ready] at done
        refine .inr ⟨⟨_, found, Bool.not_eq_true _ ▸ ready⟩, ?_⟩
        have test := List.find?_some found
        have accepted : (Http.request? view).isSome = true := (Bool.and_eq_true_iff.1 test).2
        generalize state.2.availableAt place = result at done
        obtain ⟨available, scope⟩ := result
        cases available with
        | false =>
            cases Naming.pure_eq_ok done
            exact ⟨rfl, rfl, [], (List.append_nil _).symm, .inl ⟨rfl, rfl⟩⟩
        | true =>
            obtain ⟨injection, middle, generated, done⟩ := Naming.bind_eq_ok done
            cases Naming.pure_eq_ok done
            obtain ⟨alone, code⟩ := generateClient_toEdits accepted generated
            exact ⟨rfl, by rw [alone, List.append_nil], _, rfl, .inr ⟨rfl, code⟩⟩

/-- Statements have been looked at: their code is planned where the handle is known. -/
structure Waited (site : HandleSite) (top : Place) (before : HandleScope) (state : HandleEdits × HandleScope) :
    Prop where
  grows : before.Grows state.2
  tracks : state.2.Tracks top
  each : ∀ edit ∈ state.1.edits, site.Segment top state.2 edit

theorem Waited.answered {before : HandleScope} {state : HandleEdits × HandleScope} {around : List Node}
    {result : Bool × HandleScope} (waited : site.Waited top before state)
    (answered : HandleScope.Answered top state.2 around result) : site.Waited top before (state.1, result.2) :=
  ⟨waited.grows.trans answered.grows, answered.tracks,
    fun edit member => (waited.each edit member).grows answered.grows⟩

theorem deferredStatement_waited (builtIn : site.setup.catalog = Catalog.builtIn)
    (annotated : Annotated (Token.Clear site.source.text) top.node) (closed : HandleScope.Closed top)
    {isMain : Bool} {before : HandleScope} {state next : HandleEdits × HandleScope} {block place : Place}
    {view : StatementView} {supply supply' : NameSupply} (below : Below top block) (kind : block.kind = .block)
    (part : place ∈ block.parts) (node : view.node = place.node)
    (text : view.source = site.source.text) (waited : site.Waited top before state)
    (done : site.deferredStatement isMain state (place, view) supply = (.ok next, supply')) :
    site.Waited top before next := by
  rcases deferredStatement_cases builtIn done with ⟨_, rfl⟩ | ⟨_, moved, _, new, edits, code⟩
  · exact waited
  · have answered := HandleScope.availableAt_answered annotated closed waited.tracks
      (below.trans (below_of_mem_parts part))
    have kept := waited.answered answered
    have grounded := answered.grounded
    rw [← moved] at kept grounded
    refine ⟨kept.grows, kept.tracks, fun edit member => ?_⟩
    rcases List.mem_append.1 (edits ▸ member) with old | added
    · exact kept.each edit old
    · rcases code with ⟨_, rfl⟩ | ⟨known, name, function, rfl⟩
      · cases added
      · rw [node, text, List.mem_cons, List.mem_singleton] at added
        rcases added with rfl | rfl
        · exact .start below kind part (grounded known) name function
        · exact .stop below part name

theorem deferredEdits_waited (builtIn : site.setup.catalog = Catalog.builtIn)
    (annotated : Annotated (Token.Clear site.source.text) top.node) (closed : HandleScope.Closed top)
    {isMain : Bool} {scope : HandleScope} {decl : FunctionDecl} {result : HandleEdits × HandleScope}
    (tracks : scope.Tracks top) (done : site.deferredEdits isMain scope decl top = .ok result) :
    site.Waited top scope result := by
  unfold deferredEdits at done
  generalize NameSupply.forFunction site.source site.imports decl.place.node = supply at done
  have start : site.Waited top scope ({}, scope) := ⟨.refl _, tracks, by simp⟩
  have run : (top.sequences.flatMap site.viewsOf).foldlM (site.deferredStatement isMain) ({}, scope) supply =
      (.ok result, _) := Prod.ext done rfl
  refine Naming.foldlM_keeps ?_ start run
  rintro ⟨place, view⟩ member state supply next supply' waited stepped
  obtain ⟨statements, listed, paired⟩ := List.mem_flatMap.1 member
  obtain ⟨block, met, rfl⟩ := List.mem_map.1 listed
  obtain ⟨inside, node, text⟩ := mem_viewsOf paired
  obtain ⟨met, kind⟩ := List.mem_filter.1 met
  exact deferredStatement_waited builtIn annotated closed (Go.Place.mem_descendants.1 met) (beq_iff_eq.1 kind) inside
    node text waited stepped

/-! Whole declarations. -/

/-- What is known about the handle when a declaration is taken up. -/
def firstScope (site : HandleSite) (id : Nat) : HandleScope :=
  { source := site.source, handle := site.handle, http := site.imports.nameFor? "net/http",
    available := site.plan.carries id }

theorem firstScope_tracks (site : HandleSite) (id : Nat) (top : Place) : (site.firstScope id).Tracks top :=
  ⟨by simp [firstScope], by simp [firstScope], by simp [firstScope], by simp [firstScope], .nil⟩

/-- The edits that literals need, where `scope` has the notes at the end. -/
def literalEdits (site : HandleSite) (scope : HandleScope) : List Edit :=
  (scope.launchedInOrder.map site.launchedEdits ++ scope.handlersInOrder.map site.handlerEdits).flatMap (·.edits)

/-- The plan for a declaration with a place in the graph. -/
structure DeclPlanned (site : HandleSite) (decl : FunctionDecl) (id : Nat) (body : Place) (edits : List Edit)
    (scope : HandleScope) (passed : List Passed) (segments : List Edit) : Prop where
  known : site.graph.lookup? (decl.key site.package) = some id
  found : decl.body = some body
  grows : (site.firstScope id).Grows scope
  tracks : scope.Tracks body
  edits : edits = (site.signatureEdits id decl).edits ++
    (site.creationEdits scope ((site.graph.function? id).bind (·.entry)) body.node).edits ++ site.literalEdits scope ++
    passed.map Passed.edit ++ segments
  targets : passed.map Passed.target = widenedCalls site.graph site.plan.widens
    (.ofDecl site.program site.package site.imports decl) site.source.text body
  passes : ∀ one ∈ passed, site.Passes scope one
  segments : ∀ edit ∈ segments, site.Segment body scope edit

/-- The parts of a plan put together. -/
theorem CallsPlanned.declPlanned {decl : FunctionDecl} {id : Nat} {body : Place} {calls : List Edit × HandleScope}
    {result : HandleEdits × HandleScope} {passed : List Passed}
    (known : site.graph.lookup? (decl.key site.package) = some id) (found : decl.body = some body)
    (planned : site.CallsPlanned (.ofDecl site.program site.package site.imports decl) body body.descendants
      ([], site.firstScope id) calls passed) (waited : site.Waited body calls.2 result) :
    site.DeclPlanned decl id body ((site.signatureEdits id decl).edits ++
      (site.creationEdits result.2 ((site.graph.function? id).bind (·.entry)) body.node).edits ++
      site.literalEdits result.2 ++ calls.1 ++ result.1.edits) result.2 passed result.1.edits where
  known := known
  found := found
  grows := planned.grows.trans waited.grows
  tracks := waited.tracks
  edits := by rw [planned.edits]; rfl
  targets := planned.targets
  passes := fun one member => (planned.each one member).grows waited.grows
  segments := waited.each

/-- Declarations without a place in the graph are passed over. -/
theorem declEdits_planned (parsed : site.source.IsParsed) (builtIn : site.setup.catalog = Catalog.builtIn)
    {withDeferred : Bool} {decl : FunctionDecl} {made : HandleEdits} (member : decl ∈ FunctionDecl.all site.source)
    (done : site.declEdits withDeferred decl = .ok made) :
    (made.edits = [] ∧ (site.graph.lookup? (decl.key site.package) = none ∨ decl.body = none)) ∨
      ∃ id body scope passed segments, site.DeclPlanned decl id body made.edits scope passed segments := by
  unfold declEdits at done
  split at done
  · rename_i id body known found
    have annotated := FunctionDecl.annotated_body parsed member found
    have closed := FunctionDecl.closed_body member found
    obtain ⟨passed, calls⟩ := site.foldl_callEdit_planned
      (.ofDecl site.program site.package site.imports decl) annotated closed
      (show (([], site.firstScope id) : List Edit × HandleScope).2.Tracks body from site.firstScope_tracks id body)
      (fun place met => Go.Place.mem_descendants.1 met)
    dsimp only at done
    split at done
    · obtain ⟨result, deferred, done⟩ := exists_of_bind_eq_ok done
      cases done
      exact .inr ⟨id, body, _, passed, _, calls.declPlanned known found
        (deferredEdits_waited builtIn annotated closed calls.tracks deferred)⟩
    · cases done
      have waited : site.Waited body _ ({}, _) := ⟨.refl _, calls.tracks, by simp⟩
      exact .inr ⟨id, body, _, passed, _, calls.declPlanned known found waited⟩
  · rename_i missing
    cases done
    refine .inl ⟨rfl, ?_⟩
    cases known : site.graph.lookup? (decl.key site.package) with
    | none => exact .inl rfl
    | some id =>
        cases found : decl.body with
        | none => exact .inr rfl
        | some body => exact absurd found (missing id body known)

end HandleSite
end TraceWeave
