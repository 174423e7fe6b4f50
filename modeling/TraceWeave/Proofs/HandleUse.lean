import TraceWeave.Proofs.HandleEdits
import TraceWeave.Proofs.HandlePlan
import TraceWeave.Proofs.Seeds
import TraceWeave.Proofs.SoleFile

/-!
Where the second pass uses the handle. Each use it adds stands in the scope of a declaration of that
name, with three exceptions: a function around it that counts as having the handle because its body
declares the name somewhere; a declaration without the parameter that another declaration of the same
function has; and a call in the signature of a literal.
-/
namespace TraceWeave

open Go (Node Place Token)
open Go.Node (Annotated)
open Go.Place (Below)

/-- A function or literal whose body is among the given nodes, innermost first. -/
structure Encloses (nodes : List Node) (function body : Node) : Prop where
  kind : function.kind = .funcLiteral ∨ function.kind.isFunction = true
  inside : ∃ inner outer, nodes = inner ++ body :: function :: outer
  body : function.child? .body = some body

/-- Statements whose names are known in a node once they are over: its children, and those that stand
behind a label or at the head of a loop. -/
def heldStatements (node : Node) : List Node :=
  node.children.flatMap fun child =>
    if child.kind == .forClause || child.kind == .labeledStatement then child.children else [child]

namespace HandleSite

/-- The name of the handle is declared for what stands inside the given nodes at an offset, by the
text as it is or by an edit of the batch. -/
inductive InScope (site : HandleSite) (batch : List Edit) (nodes : List Node) (offset : Nat) : Prop where
  | parameter {function parameters body : Node} (encloses : Encloses nodes function body)
      (has : function.child? .parameters = some parameters)
      (declared : ParameterGroup.declares (ParameterGroup.ofList parameters site.source.text) site.handle = true)
  | newParameter {function parameters body : Node} (encloses : Encloses nodes function body)
      (has : function.child? .parameters = some parameters)
      (added : Edit.addParameter parameters site.handleParameter ∈ batch)
  | creation {function body : Node} (encloses : Encloses nodes function body) (value : String) (more : List String)
      (added : Edit.addAtStart site.source.text body ((site.handle ++ " := " ++ value) :: more) ∈ batch)
  | statement {node statement : Node} (around : node ∈ nodes) (held : statement ∈ heldStatements node)
      (kind : statement.kind = .shortVarDeclaration)
      (declared : site.handle ∈ statement.assignedNames site.source.text) (before : statement.stop ≤ offset)

/-- What else it may rest on that the handle counts as known inside the given nodes. -/
inductive Unfounded (site : HandleSite) (nodes : List Node) : Prop where
  /-- The body around declares the name, wherever that is. -/
  | elsewhere {function body : Node} (encloses : Encloses nodes function body)
      (declared : declaresIn site.source.text site.handle body = true)
  /-- The graph knows a declaration of the function with the parameter; this one lacks it. -/
  | otherDeclaration {decl : FunctionDecl} {id : Nat} {function : GraphFunction}
      (member : decl ∈ FunctionDecl.all site.source) (known : site.graph.lookup? (decl.key site.package) = some id)
      (found : site.graph.function? id = some function) (promised : function.hasHandle = true)
      (missing : ParameterGroup.declares (decl.groups site.source.text) site.handle = false)
  /-- The place is in a literal, though not in its body. -/
  | signature {inner outer : List Node} {literal child : Node} (split : nodes = inner ++ child :: literal :: outer)
      (is : literal.kind = .funcLiteral) (apart : literal.child? .body ≠ some child)

variable {site : HandleSite} {batch more : List Edit} {nodes : List Node} {offset : Nat}

theorem InScope.mono (inScope : site.InScope batch nodes offset) (all : ∀ edit ∈ batch, edit ∈ more) :
    site.InScope more nodes offset := by
  cases inScope with
  | parameter encloses has declared => exact .parameter encloses has declared
  | newParameter encloses has added => exact .newParameter encloses has (all _ added)
  | creation encloses value lines added => exact .creation encloses value lines (all _ added)
  | statement around held kind declared before => exact .statement around held kind declared before

/-! What an answer says about the nodes around a place. -/

/-- A literal that was judged to have, get or make the handle. -/
inductive Provides (scope : HandleScope) (literal : Node) (around : List Node) : Prop where
  | own (judged : scope.judge literal around = .own)
  | handler {request : String} (judged : scope.judge literal around = .handler request)
      (noted : ⟨literal, request⟩ ∈ scope.handlers)
  | launched {launch : Node} {index : Nat} (judged : scope.judge literal around = .launched launch index)
      (noted : ⟨literal, launch, index⟩ ∈ scope.launched)

/-- The handle is that of the function, or a literal around provides it. -/
theorem provided_of_grounded {scope : HandleScope} (grounded : scope.Grounded nodes) :
    (scope.available = true ∧ scope.used = true) ∨
      ∃ inner literal outer, nodes = inner ++ literal :: outer ∧ literal.kind = .funcLiteral ∧
        Provides scope literal outer := by
  induction grounded with
  | bare available used => exact .inl ⟨available, used⟩
  | function _ available used => exact .inl ⟨available, used⟩
  | own is judged => exact .inr ⟨[], _, _, rfl, is, .own judged⟩
  | handler is judged noted => exact .inr ⟨[], _, _, rfl, is, .handler judged noted⟩
  | launched is judged noted => exact .inr ⟨[], _, _, rfl, is, .launched judged noted⟩
  | @outer node _ _ ih =>
      rcases ih with known | ⟨inner, literal, outer, split, is, provides⟩
      · exact .inl known
      · exact .inr ⟨node :: inner, literal, outer, by rw [split]; rfl, is, provides⟩

/-- A literal with a handle of its own has a parameter of that name, or its body declares the name. -/
theorem own_cases {source handle : String} {http : Option String} {literal : Node} {around : List Node}
    (judged : LiteralKind.judge source handle http literal around = .own) :
    (∃ list, literal.child? .parameters = some list ∧
      ParameterGroup.declares (ParameterGroup.ofList list source) handle = true) ∨
    ∃ body, literal.child? .body = some body ∧ declaresIn source handle body = true := by
  unfold LiteralKind.judge at judged
  dsimp only at judged
  split at judged
  · rename_i test
    rcases Bool.or_eq_true_iff.1 test with parameter | inside
    · cases has : literal.child? .parameters with
      | none =>
          rw [has] at parameter
          cases parameter
      | some list =>
          rw [has] at parameter
          exact .inl ⟨list, rfl, parameter⟩
    · obtain ⟨body, has, declared⟩ := (Option.any_eq_true _ _).1 inside
      exact .inr ⟨body, has, declared⟩
  · split at judged
    · split at judged
      · cases judged
      · cases judged
    · split at judged
      · cases judged
      · cases judged

/-- The parameter of a literal that is launched is among the edits. -/
theorem mem_literalEdits_launched (site : HandleSite) {scope : HandleScope} {found : LaunchedLiteral} {list : Node}
    (noted : found ∈ scope.launched) (has : found.literal.child? .parameters = some list) :
    Edit.addParameter list site.handleParameter ∈ site.literalEdits scope := by
  refine List.mem_flatMap.2 ⟨site.launchedEdits found, List.mem_append_left _ ?_, List.mem_append_left _ ?_⟩
  · exact List.mem_map_of_mem (List.mem_mergeSort.2 noted)
  · rw [has]
    exact List.mem_singleton.2 rfl

/-- So is what a handler literal makes. -/
theorem mem_literalEdits_handler (site : HandleSite) {scope : HandleScope} {found : HandlerLiteral} {body : Node}
    (noted : found ∈ scope.handlers) (has : found.literal.child? .body = some body) :
    Edit.addAtStart site.source.text body [site.fromRequest found.request] ∈ site.literalEdits scope := by
  refine List.mem_flatMap.2 ⟨site.handlerEdits found, List.mem_append_right _ ?_, ?_⟩
  · exact List.mem_map_of_mem (List.mem_mergeSort.2 noted)
  · rw [handlerEdits, has]
    exact List.mem_singleton.2 rfl

theorem exists_fromRequest (site : HandleSite) (request : String) :
    ∃ value, site.fromRequest request = site.handle ++ " := " ++ value :=
  ⟨Setup.agentPackage site.imports ++ ".FromContext(" ++ request ++ ".Context())", by
    simp only [fromRequest, String.append_assoc]⟩

/-- What holds inside a literal that provides the handle. -/
theorem Provides.justified {scope : HandleScope} {top : Place} {inner outer : List Node} {literal child : Node}
    (provides : Provides scope literal outer) (source : scope.source = site.source) (handle : scope.handle = site.handle)
    (annotated : Annotated (Token.Clear site.source.text) top.node) (tracks : scope.Tracks top)
    (split : nodes = inner ++ child :: literal :: outer) (is : literal.kind = .funcLiteral) (offset : Nat) :
    site.InScope (site.literalEdits scope) nodes offset ∨ site.Unfounded nodes := by
  by_cases inBody : literal.child? .body = some child
  · have encloses : Encloses nodes literal child := ⟨.inl is, ⟨inner, outer, split⟩, inBody⟩
    cases provides with
    | own judged =>
        rw [HandleScope.judge, source, handle] at judged
        rcases own_cases judged with ⟨list, has, declared⟩ | ⟨body, has, declared⟩
        · exact .inl (.parameter encloses has declared)
        · cases inBody.symm.trans has
          exact .inr (.elsewhere encloses declared)
    | @handler request _ noted =>
        obtain ⟨value, same⟩ := site.exists_fromRequest request
        have added := site.mem_literalEdits_handler noted inBody
        rw [same] at added
        exact .inl (.creation encloses value [] added)
    | launched _ noted =>
        obtain ⟨_, around, below, _, _⟩ := tracks.launched _ noted
        obtain ⟨list, has, _⟩ := (below.annotated annotated).literalParameters is
        exact .inl (.newParameter encloses has (site.mem_literalEdits_launched noted has))
  · exact .inr (.signature split is inBody)

/-- What the plan promises about a function with the handle. -/
def Kept (site : HandleSite) : Prop :=
  ∀ id, site.plan.carries id = true → ∃ function, site.graph.function? id = some function ∧
    HandlePlan.knowsHandle function = true ∧
    (function.entry = none → function.hasHandle = false → site.plan.widens id = true)

variable {decl : FunctionDecl} {id : Nat} {body : Place} {edits : List Edit} {scope : HandleScope}
  {passed : List Passed} {segments : List Edit}

/-- The parameter of a function that takes the handle. -/
theorem mem_signatureEdits {list : Place} (has : decl.parameters = some list) (widens : site.plan.widens id = true) :
    Edit.addParameter list.node site.handleParameter ∈ (site.signatureEdits id decl).edits := by
  rw [signatureEdits, has]
  dsimp only
  rw [if_pos widens]
  exact List.mem_singleton.2 rfl

/-- What an entry point makes, if it uses the handle and its body does not declare the name. -/
theorem mem_creationEdits {entry : Option Entry} {line : String} {more : List String} {imports : List String}
    (made : site.creation entry = (line :: more, imports)) (used : scope.used = true)
    (apart : declaresIn site.source.text site.handle body.node = false) :
    Edit.addAtStart site.source.text body.node (line :: more) ∈ (site.creationEdits scope entry body.node).edits := by
  rw [creationEdits, used, apart, made]
  exact List.mem_singleton.2 rfl

/-- What holds in the body of a function with the handle. -/
theorem DeclPlanned.justified (planned : site.DeclPlanned decl id body edits scope passed segments) (kept : site.Kept)
    (parsed : site.source.IsParsed) (member : decl ∈ FunctionDecl.all site.source)
    (encloses : Encloses nodes decl.place.node body.node) (available : scope.available = true)
    (used : scope.used = true) (offset : Nat) : site.InScope edits nodes offset ∨ site.Unfounded nodes := by
  obtain ⟨list, has, _, _⟩ := FunctionDecl.exists_parameters parsed member
  have child : decl.place.node.child? .parameters = some list.node := by
    obtain ⟨node, found, same⟩ := Option.map_eq_some_iff.1 ((FunctionDecl.of_mem_all member).2.2.1.symm.trans has)
    rw [found, ← same]
    rfl
  have carries : site.plan.carries id = true := planned.grows.available.symm.trans available
  obtain ⟨function, found, knows, widens⟩ := kept id carries
  have promised : function.hasHandle = true → site.InScope edits nodes offset ∨ site.Unfounded nodes := by
    intro promised
    cases declared : ParameterGroup.declares (decl.groups site.source.text) site.handle with
    | true =>
        rw [FunctionDecl.groups, has] at declared
        exact .inl (.parameter encloses child declared)
    | false => exact .inr (.otherDeclaration member planned.known found promised declared)
  have creates : ∀ value more imports, site.creation function.entry = ((site.handle ++ " := " ++ value) :: more, imports) →
      site.InScope edits nodes offset ∨ site.Unfounded nodes := by
    intro value more imports made
    cases declared : declaresIn site.source.text site.handle body.node with
    | true => exact .inr (.elsewhere encloses declared)
    | false =>
        have added := mem_creationEdits made used declared
        refine .inl (.creation encloses value more ?_)
        rw [planned.edits, found]
        simp only [List.mem_append]
        exact .inl (.inl (.inl (.inr added)))
  cases entry : function.entry with
  | none =>
      cases handle : function.hasHandle with
      | true => exact promised handle
      | false =>
          have added := mem_signatureEdits has (widens entry handle)
          refine .inl (.newParameter encloses child ?_)
          rw [planned.edits]
          simp only [List.mem_append]
          exact .inl (.inl (.inl (.inl added)))
  | some kind =>
      cases kind with
      | main =>
          refine creates (site.setup.settings.agent ++ ".StartTransaction(\"main\")")
            ["defer " ++ site.handle ++ ".End()"] [] ?_
          rw [entry, creation]
          simp only [String.append_assoc]
      | handler request =>
          cases request with
          | none =>
              refine promised ?_
              rw [HandlePlan.knowsHandle, entry] at knows
              exact knows
          | some request =>
              obtain ⟨value, same⟩ := site.exists_fromRequest request
              refine creates value [] [Integration.agentPath] ?_
              rw [entry, creation, same]
      | test =>
          rw [HandlePlan.knowsHandle, entry] at knows
          cases knows

theorem DeclPlanned.encloses (planned : site.DeclPlanned decl id body edits scope passed segments)
    (parsed : site.source.IsParsed) (member : decl ∈ FunctionDecl.all site.source) {holder : Place}
    (below : Below body holder) : Encloses (holder.node :: holder.around) decl.place.node body.node := by
  obtain ⟨_, kind, _, child⟩ := FunctionDecl.of_mem_all member
  obtain ⟨_, _, around⟩ := FunctionDecl.body_spec parsed member planned.found
  obtain ⟨inner, split⟩ := below.exists_outward
  rw [around] at split
  refine ⟨.inr kind, ⟨inner, [site.source.root], split⟩, ?_⟩
  obtain ⟨node, found, same⟩ := Option.map_eq_some_iff.1 (child.symm.trans planned.found)
  rw [found, ← same]
  rfl

/-- Where the handle counts as known, it is in scope or one of the exceptions applies. -/
theorem DeclPlanned.inScope_or (planned : site.DeclPlanned decl id body edits scope passed segments)
    (kept : site.Kept) (parsed : site.source.IsParsed) (member : decl ∈ FunctionDecl.all site.source) {holder : Place}
    (below : Below body holder) (apart : holder.kind ≠ .funcLiteral)
    (grounded : scope.Grounded (holder.node :: holder.around)) (offset : Nat) :
    site.InScope edits (holder.node :: holder.around) offset ∨ site.Unfounded (holder.node :: holder.around) := by
  rcases provided_of_grounded grounded with ⟨available, used⟩ | ⟨inner, literal, outer, split, is, provides⟩
  · exact planned.justified kept parsed member (planned.encloses parsed member below) available used offset
  · rcases List.eq_nil_or_concat inner with rfl | ⟨inner, child, rfl⟩
    · cases split
      exact absurd is apart
    · rw [List.concat_eq_append, List.append_assoc] at split
      have annotated := FunctionDecl.annotated_body parsed member planned.found
      rcases provides.justified planned.grows.source planned.grows.handle annotated planned.tracks split is offset with
        inScope | unfounded
      · refine .inl (inScope.mono ?_)
        intro edit listed
        rw [planned.edits]
        simp [listed]
      · exact .inr unfounded

/-! Every edit. -/

/-- What an edit of the second pass has to do with the name of the handle: it declares it, does not
mention it, or uses it where it is in scope or one of the exceptions applies. -/
inductive Accounted (site : HandleSite) (batch : List Edit) : Edit → Prop where
  | parameter (list : Node) : Accounted site batch (Edit.addParameter list site.handleParameter)
  | creation (body : Node) (value : String) (more : List String)
      (ends : more = [] ∨ more = ["defer " ++ site.handle ++ ".End()"]) :
      Accounted site batch (Edit.addAtStart site.source.text body ((site.handle ++ " := " ++ value) :: more))
  | nothing (list : Node) (index : Nat) : Accounted site batch (Edit.addToArguments list index "nil")
  | argument {call : Place} {list : Node} (below : Below site.source.rootPlace call)
      (has : call.node.child? .arguments = some list) (index : Nat) (text : String)
      (uses : text = site.handle ∨ text = site.goroutineHandle)
      (known : site.InScope batch (call.node :: call.around) (Edit.addToArguments list index text).start ∨
        site.Unfounded (call.node :: call.around)) : Accounted site batch (Edit.addToArguments list index text)
  | segment {block statement : Place} (below : Below site.source.rootPlace block) (part : statement ∈ block.parts)
      (name function text : String)
      (uses : text = name ++ " := " ++ site.handle ++ ".StartSegment(\"http." ++ function ++ "\")")
      (known : site.InScope batch (block.node :: block.around)
          (Edit.addBefore site.source.text statement.node text).start ∨
        site.Unfounded (block.node :: block.around)) :
      Accounted site batch (Edit.addBefore site.source.text statement.node text)
  | finish (statement : Node) (name : String) :
      Accounted site batch (Edit.addAfter site.source.text statement (name ++ ".End()"))

theorem Accounted.mono {edit : Edit} (accounted : site.Accounted batch edit) (all : ∀ edit ∈ batch, edit ∈ more) :
    site.Accounted more edit := by
  cases accounted with
  | parameter list => exact .parameter list
  | creation body value lines ends => exact .creation body value lines ends
  | nothing list index => exact .nothing list index
  | argument below has index text uses known =>
      exact .argument below has index text uses (known.imp_left fun inScope => inScope.mono all)
  | segment below part name function text uses known =>
      exact .segment below part name function text uses (known.imp_left fun inScope => inScope.mono all)
  | finish statement name => exact .finish statement name

theorem signatureEdits_accounted {edit : Edit} (planned : edit ∈ (site.signatureEdits id decl).edits) :
    site.Accounted batch edit := by
  unfold signatureEdits at planned
  split at planned
  · split at planned
    · cases List.mem_singleton.1 planned
      exact .parameter _
    · cases planned
  · cases planned

theorem creationEdits_accounted {edit : Edit} {entry : Option Entry} {node : Node}
    (planned : edit ∈ (site.creationEdits scope entry node).edits) : site.Accounted batch edit := by
  unfold creationEdits creation at planned
  split at planned
  · dsimp only at planned
    split at planned
    · cases List.mem_singleton.1 planned
      rw [String.append_assoc]
      exact .creation node _ _ (.inr rfl)
    · rename_i request
      obtain ⟨value, same⟩ := site.exists_fromRequest request
      cases List.mem_singleton.1 planned
      rw [same]
      exact .creation node value [] (.inl rfl)
    · cases planned
  · cases planned

theorem DeclPlanned.launched_accounted (planned : site.DeclPlanned decl id body edits scope passed segments)
    (kept : site.Kept) (parsed : site.source.IsParsed) (member : decl ∈ FunctionDecl.all site.source) {edit : Edit}
    {found : LaunchedLiteral} (noted : found ∈ scope.launched) (listed : edit ∈ (site.launchedEdits found).edits) :
    site.Accounted edits edit := by
  obtain ⟨is, around, inside, judged, grounded⟩ := planned.tracks.launched found noted
  have below := FunctionDecl.below_body parsed member planned.found
  have kind := (FunctionDecl.body_spec parsed member planned.found).1
  rcases List.mem_append.1 listed with parameter | argument
  · obtain ⟨list, _, rfl⟩ := List.mem_map.1 parameter
    exact .parameter list
  · obtain ⟨outer, rfl, call, isCall⟩ :=
      below_launch inside (by rw [kind]; simp) is (launchOf?_of_judge judged)
    obtain ⟨list, has, rfl⟩ := Option.map_eq_some_iff.1 (Option.mem_toList.1 argument)
    have known := planned.inScope_or kept parsed member call (fun contrary => by cases isCall.symm.trans contrary) grounded
      (Edit.addToArguments list found.index site.goroutineHandle).start
    exact .argument (below.trans call) has found.index _ (.inr rfl) known

theorem DeclPlanned.literal_accounted (planned : site.DeclPlanned decl id body edits scope passed segments)
    (kept : site.Kept) (parsed : site.source.IsParsed) (member : decl ∈ FunctionDecl.all site.source) {edit : Edit}
    (listed : edit ∈ site.literalEdits scope) : site.Accounted edits edit := by
  obtain ⟨part, from', inside⟩ := List.mem_flatMap.1 listed
  rcases List.mem_append.1 from' with launched | handler
  · obtain ⟨found, noted, rfl⟩ := List.mem_map.1 launched
    exact planned.launched_accounted kept parsed member (List.mem_mergeSort.1 noted) inside
  · obtain ⟨found, _, rfl⟩ := List.mem_map.1 handler
    obtain ⟨value, same⟩ := site.exists_fromRequest found.request
    unfold handlerEdits at inside
    split at inside
    · cases List.mem_singleton.1 inside
      rw [same]
      exact .creation _ value [] (.inl rfl)
    · cases inside

theorem DeclPlanned.passed_accounted (planned : site.DeclPlanned decl id body edits scope passed segments)
    (kept : site.Kept) (parsed : site.source.IsParsed) (member : decl ∈ FunctionDecl.all site.source) {one : Passed}
    (listed : one ∈ passed) : site.Accounted edits one.edit := by
  obtain ⟨list, argument⟩ := planned.passes one listed
  have met : one.target ∈ widenedCalls site.graph site.plan.widens
      (.ofDecl site.program site.package site.imports decl) site.source.text body :=
    planned.targets ▸ List.mem_map_of_mem listed
  obtain ⟨call, found, same⟩ := List.mem_filterMap.1 met
  obtain ⟨callee, named, same⟩ := Option.map_eq_some_iff.1 same
  have here : call = one.call := congrArg Prod.fst same
  subst here
  have inside := Go.Place.mem_descendants.1 found
  have below := (FunctionDecl.below_body parsed member planned.found).trans inside
  unfold Passed.edit
  rcases argument with nothing | ⟨argument, grounded⟩
  · rw [nothing]
    exact .nothing _ _
  · have isCall := kind_of_widenedCallee? named
    have known := planned.inScope_or kept parsed member inside (fun contrary => by cases isCall.symm.trans contrary)
      (.outer grounded) (Edit.addToArguments one.list one.callee.handleIndex one.argument).start
    refine .argument below list.found _ _ ?_ known
    rw [argument]
    split
    · exact .inr rfl
    · exact .inl rfl

theorem DeclPlanned.segment_accounted (planned : site.DeclPlanned decl id body edits scope passed segments)
    (kept : site.Kept) (parsed : site.source.IsParsed) (member : decl ∈ FunctionDecl.all site.source) {edit : Edit}
    (listed : edit ∈ segments) : site.Accounted edits edit := by
  have below := FunctionDecl.below_body parsed member planned.found
  cases planned.segments edit listed with
  | @start block statement inside kind part grounded name function =>
      have around : statement.around = block.node :: block.around := by
        obtain ⟨node, _, rfl⟩ := List.mem_map.1 part
        rfl
      rw [around] at grounded
      have known := planned.inScope_or kept parsed member inside (fun contrary => by cases kind.symm.trans contrary)
        grounded (Edit.addBefore site.source.text statement.node
          (name ++ " := " ++ site.handle ++ ".StartSegment(\"http." ++ function ++ "\")")).start
      exact .segment (below.trans inside) part name function _ rfl known
  | @stop block statement inside part name => exact .finish statement.node name

theorem DeclPlanned.accounted (planned : site.DeclPlanned decl id body edits scope passed segments) (kept : site.Kept)
    (parsed : site.source.IsParsed) (member : decl ∈ FunctionDecl.all site.source) :
    ∀ edit ∈ edits, site.Accounted edits edit := by
  intro edit listed
  have parts := listed
  rw [planned.edits] at parts
  simp only [List.mem_append] at parts
  rcases parts with (((signature | creation) | literal) | call) | segment
  · exact signatureEdits_accounted signature
  · exact creationEdits_accounted creation
  · exact planned.literal_accounted kept parsed member literal
  · obtain ⟨one, inside, rfl⟩ := List.mem_map.1 call
    exact planned.passed_accounted kept parsed member inside
  · exact planned.segment_accounted kept parsed member segment

/-- Every edit that the second pass plans for a file. -/
theorem fileEdits_accounted (parsed : site.source.IsParsed) (builtIn : site.setup.catalog = Catalog.builtIn)
    (kept : site.Kept) {withDeferred : Bool} {made : HandleEdits} (done : site.fileEdits withDeferred = .ok made) :
    ∀ edit ∈ made.edits, site.Accounted made.edits edit := by
  unfold fileEdits at done
  obtain ⟨parts, mapped, done⟩ := exists_of_bind_eq_ok done
  cases done
  intro edit listed
  rcases List.mem_append.1 listed with inBody | atFile
  · obtain ⟨part, known, inside⟩ := List.mem_flatMap.1 inBody
    obtain ⟨decl, member, planned⟩ := exists_of_mem_mapM mapped known
    have all : ∀ other ∈ part.edits, other ∈ parts.flatMap (·.edits) ++
        fileLevelEdits site.graph site.plan.widens (.ofFile site.program site.package site.imports) site.source :=
      fun other mine => List.mem_append_left _ (List.mem_flatMap.2 ⟨part, known, mine⟩)
    rcases declEdits_planned parsed builtIn member planned with ⟨nothing, _⟩ | ⟨id, body, scope, passed, segments, planned⟩
    · rw [nothing] at inside
      cases inside
    · exact (planned.accounted kept parsed member edit inside).mono all
  · obtain ⟨item, _, inside⟩ := List.mem_flatMap.1 atFile
    obtain ⟨call, _, made⟩ := List.mem_filterMap.1 inside
    obtain ⟨callee, _, made⟩ := Option.bind_eq_some_iff.1 made
    obtain ⟨list, _, rfl⟩ := Option.map_eq_some_iff.1 made
    exact .nothing list callee.handleIndex

/-- A plan follows the paths to its seeds, and so keeps its promises. -/
theorem kept_of_compute {seeds : List FunctionKey} (distinct : seeds.Nodup)
    (plan : site.plan = HandlePlan.compute site.graph seeds) : site.Kept := by
  obtain ⟨progress, _⟩ := HandlePlan.compute_progress site.graph distinct
  rw [← plan] at progress
  intro id carries
  obtain ⟨settled, function, path, knows⟩ := (progress.carriers id).1 (List.contains_iff_mem.1 carries)
  refine ⟨function, path.isOpen.1, knows, ?_⟩
  intro entry without
  exact List.contains_iff_mem.2 ((progress.widened id).2 ⟨settled, function, path, entry, without⟩)

end HandleSite

/-- Uses of the handle over a whole run: the second pass leaves test files alone, and accounts for
every edit of every other file. -/
theorem uses_accounted_of_load {disk : Disk} {root : String} {selection : Selection} {program : Program}
    (loaded : Loader.load disk root selection = .ok program) (settings : Settings) :
    let setup := Setup.ofProgram program Catalog.builtIn settings
    let graph := CallGraph.build program settings.handle
    let injected := setup.inject (Run.ofProgram program setup)
    let propagated := setup.propagate graph injected
    ∀ index source, injected.program.source? index = some source →
      (source.isTest = true ∧ propagated.2.program.source? index = some source) ∨
      ∃ middle entry made, Program.Evolves (· ≠ index) injected.program middle.program ∧
        middle.program.files[index]? = some entry ∧ entry.source = source ∧
        propagated.2.program.source? index = some (source.applied made.edits) ∧
        let site := HandleSite.taking setup graph propagated.1 middle entry
        (∃ withDeferred, site.fileEdits withDeferred = .ok made) ∧
        ∀ edit ∈ made.edits, site.Accounted made.edits edit := by
  intro setup graph injected propagated index source found
  obtain ⟨entry, here, rfl⟩ := Option.map_eq_some_iff.1 found
  have parsed : injected.program.IsParsed :=
    (setup.inject_evolves (Run.ofProgram program setup)).isParsed (Loader.load_isParsed loaded)
  cases test : entry.source.isTest with
  | true =>
      refine .inl ⟨rfl, ?_⟩
      rcases (setup.propagate_evolves graph injected).source? index with
        ⟨missing, _⟩ | ⟨source, changed, found', result, _, untouched⟩
      · cases found.symm.trans missing
      · cases found.symm.trans found'
        refine result.trans (congrArg some (untouched fun listed => ?_))
        have production := (Run.mem_filesWhere found).1 listed
        rw [test] at production
        cases production
  | false =>
      obtain ⟨middle, before, here', withDeferred, made, done, final⟩ := setup.propagate_batch graph here test
      refine .inr ⟨middle, entry, made, before, here', rfl, final, ⟨withDeferred, done⟩, ?_⟩
      refine HandleSite.fileEdits_accounted (parsed entry (List.mem_of_getElem? here)) rfl ?_ done
      exact HandleSite.kept_of_compute (setup.inject_seeds_nodup program setup.detection.notes) rfl

/-- `main` calls `fetch`, which makes a request, after a block that declares a variable with the name
of the handle. -/
def innerVariable : String :=
  "package main\n\nimport \"net/http\"\n\nfunc main() \x7b\n\tif true \x7b\n\t\tnrTxn := 1\n\t\t_ = nrTxn\n\t\x7d\n\tfetch()\n\x7d\n\n" ++
    "func fetch() \x7b\n\thttp.Get(\"x\")\n\x7d\n"

theorem uses_accounted_of_load_innerVariable :
    ∃ program, Loader.load (soleDisk innerVariable) "/" {} = .ok program ∧
      let setup := Setup.ofProgram program Catalog.builtIn {}
      let graph := CallGraph.build program "nrTxn"
      let injected := setup.inject (Run.ofProgram program setup)
      let propagated := setup.propagate graph injected
      ∀ index source, injected.program.source? index = some source →
        (source.isTest = true ∧ propagated.2.program.source? index = some source) ∨
        ∃ middle entry made, Program.Evolves (· ≠ index) injected.program middle.program ∧
          middle.program.files[index]? = some entry ∧ entry.source = source ∧
          propagated.2.program.source? index = some (source.applied made.edits) ∧
          let site := HandleSite.taking setup graph propagated.1 middle entry
          (∃ withDeferred, site.fileEdits withDeferred = .ok made) ∧
          ∀ edit ∈ made.edits, site.Accounted made.edits edit := by
  have opens : isMainFile innerVariable = true := isMainFile_of_plain (by decide +kernel)
  have loaded := Loader.load_soleDisk opens
  exact ⟨_, loaded, uses_accounted_of_load loaded {}⟩

namespace HandleSite

/-- Whether anything around might declare the name of the handle. Where lines are added to a block,
only the place of the edit is looked at. -/
def mayDeclare (site : HandleSite) (batch : List Edit) (nodes : List Node) (offset : Nat) : Bool :=
  nodes.any fun node =>
    (node.child? .parameters).any (fun list =>
        ParameterGroup.declares (ParameterGroup.ofList list site.source.text) site.handle ||
          batch.contains (Edit.addParameter list site.handleParameter)) ||
      (node.child? .body).any (fun body =>
        batch.any fun edit => edit.start == (Edit.addAtStart site.source.text body []).start) ||
      (heldStatements node).any fun statement => statement.kind == .shortVarDeclaration &&
        (statement.assignedNames site.source.text).contains site.handle && decide (statement.stop ≤ offset)

theorem start_addAtStart (source : String) (block : Node) (lines : List String) :
    (Edit.addAtStart source block lines).start = (Edit.addAtStart source block []).start := by
  unfold Edit.addAtStart Edit.addBeforeFirst Edit.addToEmpty
  dsimp only
  cases block.statements.head? with
  | some first =>
      dsimp only
      by_cases starts : Text.startsLine source first.start = true
      · rw [if_pos starts, if_pos starts, Edit.start_insertAt, Edit.start_insertAt]
      · rw [if_neg starts, if_neg starts, Edit.start_insertAt, Edit.start_insertAt]
  | none =>
      dsimp only
      generalize Text.isAllBlank (Text.slice source (block.start + 1) (max (block.stop - 1) (block.start + 1))) = blank
      cases blank with
      | false => exact (Edit.start_insertAt _ _).trans (Edit.start_insertAt _ _).symm
      | true => rfl

theorem Encloses.function_mem {nodes : List Node} {function body : Node} (encloses : Encloses nodes function body) :
    function ∈ nodes := by
  obtain ⟨inner, outer, split⟩ := encloses.inside
  simp [split]

variable {site : HandleSite} {batch : List Edit} {nodes : List Node} {offset : Nat}

theorem mayDeclare_of_inScope (inScope : site.InScope batch nodes offset) :
    site.mayDeclare batch nodes offset = true := by
  unfold mayDeclare
  rw [List.any_eq_true]
  cases inScope with
  | @parameter function list _ encloses has declared =>
      refine ⟨function, Encloses.function_mem encloses, ?_⟩
      simp [has, declared]
  | @newParameter function list _ encloses has added =>
      refine ⟨function, Encloses.function_mem encloses, ?_⟩
      simp [has, added]
  | @creation function body encloses value more added =>
      refine ⟨function, Encloses.function_mem encloses, ?_⟩
      have opened : batch.any (fun edit => edit.start == (Edit.addAtStart site.source.text body []).start) = true :=
        List.any_eq_true.2 ⟨_, added, beq_iff_eq.2 (start_addAtStart _ _ _)⟩
      simp [encloses.body, opened]
  | @statement node statement around held kind declared before =>
      refine ⟨node, around, ?_⟩
      have named : (heldStatements node).any (fun statement => statement.kind == .shortVarDeclaration &&
          (statement.assignedNames site.source.text).contains site.handle && decide (statement.stop ≤ offset)) = true :=
        List.any_eq_true.2 ⟨statement, held, by simp [kind, declared, before]⟩
      rw [named, Bool.or_true]

/-- A call whose new argument is the handle, where nothing declares that name. -/
def straysAt (site : HandleSite) (batch : List Edit) (call : Place) : Bool :=
  (call.node.child? .arguments).any fun list =>
    let edit := Edit.addToArguments list 0 site.handle
    batch.contains edit && !site.mayDeclare batch (call.node :: call.around) edit.start

end HandleSite

/-- The call in `main` uses a name that nothing declares there. -/
theorem innerVariable_strays :
    ∃ program, Loader.load (soleDisk innerVariable) "/" {} = .ok program ∧
      let setup := Setup.ofProgram program Catalog.builtIn {}
      let graph := CallGraph.build program "nrTxn"
      let injected := setup.inject (Run.ofProgram program setup)
      ∃ entry ∈ injected.program.files,
        let site := HandleSite.taking setup graph (setup.propagate graph injected).1 injected entry
        ∃ made, ∃ call : Place, ∃ list, site.fileEdits true = .ok made ∧ call.node.child? .arguments = some list ∧
          Edit.addToArguments list 0 "nrTxn" ∈ made.edits ∧
          ¬ site.InScope made.edits (call.node :: call.around) (Edit.addToArguments list 0 "nrTxn").start := by
  have strays : (Loader.load (soleDisk innerVariable) "/" {}).toOption.any (fun program =>
      let setup := Setup.ofProgram program Catalog.builtIn {}
      let graph := CallGraph.build program "nrTxn"
      let injected := setup.inject (Run.ofProgram program setup)
      let plan := HandlePlan.compute graph injected.seeds
      injected.program.files.any fun entry =>
        let site := HandleSite.taking setup graph plan injected entry
        (site.fileEdits true).toOption.any fun made =>
          entry.source.rootPlace.descendants.any (site.straysAt made.edits)) = true := by decide +kernel
  obtain ⟨program, loaded, strays⟩ := exists_of_any_toOption strays
  obtain ⟨entry, listed, strays⟩ := List.any_eq_true.1 strays
  obtain ⟨made, done, strays⟩ := exists_of_any_toOption strays
  obtain ⟨call, _, strays⟩ := List.any_eq_true.1 strays
  obtain ⟨list, has, strays⟩ := (Option.any_eq_true _ _).1 strays
  rw [Bool.and_eq_true, List.contains_iff_mem, Bool.not_eq_true'] at strays
  refine ⟨program, loaded, entry, listed, made, call, list, done, has, strays.1, fun inScope => ?_⟩
  exact Bool.false_ne_true (strays.2.symm.trans (HandleSite.mayDeclare_of_inScope inScope))

end TraceWeave
