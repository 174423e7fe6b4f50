import TraceWeave.Proofs.CallView
import TraceWeave.Proofs.SoleFile

/-!
Calls and the handle. Every call that names a function which takes the handle gets one more argument,
if the declaration it stands in has a place in the graph; the argument goes where the new parameter
went, if the call has that many arguments. No other call gets one, launches of literals that take the
handle themselves apart.
-/
namespace TraceWeave

open Go (Node Place Token)
open Go.Node (Annotated)
open Go.Place (Below)

/-- An edit of a batch that is about something other than a call of a function which takes the handle. -/
inductive Aside (source : Source) (batch : List Edit) : Edit → Prop where
  | parameter {list : Place} (below : Below source.rootPlace list) (kind : list.kind = .parameterList)
      (text : String) : Aside source batch (Edit.addParameter list.node text)
  /-- A literal that is launched gets the parameter as well. -/
  | launch {literal : Place} {call parameters arguments : Node} (below : Below source.rootPlace literal)
      (kind : literal.kind = .funcLiteral) (launched : launchOf? literal.node literal.around = some call)
      (has : literal.node.child? .parameters = some parameters) (declared : String)
      (widened : Edit.addParameter parameters declared ∈ batch) (found : call.child? .arguments = some arguments)
      (formed : Annotated (Token.Clear source.text) arguments) (opens : arguments.kind.opens = true)
      (index : Nat) (text : String) : Aside source batch (Edit.addToArguments arguments index text)
  | lines {block : Place} (below : Below source.rootPlace block) (kind : block.kind = .block) (lines : List String) :
      Aside source batch (Edit.addAtStart source.text block.node lines)
  | before {statement : Place} (below : Below source.rootPlace statement) (text : String) :
      Aside source batch (Edit.addBefore source.text statement.node text)
  | after {statement : Place} (below : Below source.rootPlace statement) (text : String) :
      Aside source batch (Edit.addAfter source.text statement.node text)

theorem Aside.mono {source : Source} {batch more : List Edit} {edit : Edit} (aside : Aside source batch edit)
    (all : ∀ edit ∈ batch, edit ∈ more) : Aside source more edit := by
  cases aside with
  | parameter below kind text => exact .parameter below kind text
  | launch below kind launched has declared widened found formed opens index text =>
      exact .launch below kind launched has declared (all _ widened) found formed opens index text
  | lines below kind lines => exact .lines below kind lines
  | before below text => exact .before below text
  | after below text => exact .after below text

/-- Edits go between characters, except that a block without statements may be opened up. -/
theorem Aside.inserts {source : Source} {batch : List Edit} {edit : Edit} (parsed : source.IsParsed)
    (aside : Aside source batch edit) : Edit.Inserts source.text edit ∨
      ∃ block, Below source.rootPlace block ∧ block.kind = .block ∧ block.node.statements = [] ∧
        ∃ lines, edit = Edit.addAtStart source.text block.node lines := by
  cases aside with
  | @parameter list below kind text =>
      have opens : list.kind.opens = true := by rw [kind]; rfl
      exact .inl (Edit.inserts_addParameter (below.annotated parsed.annotated) opens text)
  | launch _ _ _ _ _ _ _ formed opens index text =>
      exact .inl (Edit.inserts_addToArguments formed opens index text)
  | @lines block below kind lines =>
      by_cases empty : block.node.statements = []
      · exact .inr ⟨block, below, kind, empty, lines, rfl⟩
      · exact .inl (Edit.inserts_addAtStart (below.annotated parsed.annotated) empty lines)
  | before below text => exact .inl (Edit.inserts_addBefore (below.annotated parsed.annotated) text)
  | after below text => exact .inl (Edit.inserts_addAfter (below.annotated parsed.annotated) text)

/-! Edits of a declaration that are not about calls. -/

namespace HandleSite

variable {site : HandleSite} {decl : FunctionDecl} {id : Nat} {body : Place} {edits : List Edit}
  {scope : HandleScope} {passed : List Passed} {segments : List Edit} {edit : Edit}

theorem signatureEdits_cases (parsed : site.source.IsParsed) (member : decl ∈ FunctionDecl.all site.source)
    (planned : edit ∈ (site.signatureEdits id decl).edits) :
    ∃ list, Below site.source.rootPlace list ∧ list.kind = .parameterList ∧
      edit = Edit.addParameter list.node site.handleParameter := by
  unfold signatureEdits at planned
  split at planned
  · rename_i list found
    split at planned
    · obtain ⟨list', same, _, kind⟩ := FunctionDecl.exists_parameters parsed member
      cases found.symm.trans same
      have child := (FunctionDecl.of_mem_all member).2.2.1
      refine ⟨list, FunctionDecl.below_child? member (child.symm.trans found) ?_, kind, List.mem_singleton.1 planned⟩
      change list.node.kind.isNamed = true
      rw [kind]
      rfl
    · cases planned
  · cases planned

theorem signatureEdits_aside (parsed : site.source.IsParsed) (member : decl ∈ FunctionDecl.all site.source)
    (planned : edit ∈ (site.signatureEdits id decl).edits) : Aside site.source edits edit := by
  obtain ⟨list, below, kind, rfl⟩ := signatureEdits_cases parsed member planned
  exact .parameter below kind _

theorem creationEdits_aside {entry : Option Entry} (below : Below site.source.rootPlace body)
    (kind : body.kind = .block) (planned : edit ∈ (site.creationEdits scope entry body.node).edits) :
    Aside site.source edits edit := by
  unfold creationEdits at planned
  split at planned
  · dsimp only at planned
    split at planned
    · cases planned
    · cases List.mem_singleton.1 planned
      exact .lines below kind _
  · cases planned

theorem launchedEdits_aside {top : Place} {found : LaunchedLiteral} {around : List Node} (parsed : site.source.IsParsed)
    (below : Below site.source.rootPlace top) (apart : top.node.kind ≠ .funcLiteral)
    (is : found.literal.kind = .funcLiteral) (inside : Below top ⟨found.literal, around⟩)
    (launched : launchOf? found.literal around = some found.launch)
    (planned : edit ∈ (site.launchedEdits found).edits) : Aside site.source (site.launchedEdits found).edits edit := by
  have literal := below.trans inside
  have formed := literal.annotated parsed.annotated
  obtain ⟨list, has, kind⟩ := formed.literalParameters is
  have widened : Edit.addParameter list site.handleParameter ∈ (site.launchedEdits found).edits := by
    refine List.mem_append_left _ ?_
    rw [has]
    exact List.mem_singleton.2 rfl
  rcases List.mem_append.1 planned with parameter | argument
  · rw [has] at parameter
    cases List.mem_singleton.1 parameter
    refine .parameter (literal.inside (List.mem_filter.2 ⟨List.mem_of_find?_eq_some has, ?_⟩)) kind _
    rw [kind]
    rfl
  · obtain ⟨outer, _, around, call⟩ := below_launch inside apart is launched
    have formed' := (below.trans around).annotated parsed.annotated
    obtain ⟨arguments, present, kind'⟩ := formed'.argumentList call
    rw [Edit.addArgument?, present] at argument
    cases List.mem_singleton.1 argument
    exact .launch literal is launched has _ widened present (formed'.child? present) (by rw [kind']; rfl) _ _

theorem handlerEdits_aside {top : Place} {found : HandlerLiteral} {around : List Node} (parsed : site.source.IsParsed)
    (below : Below site.source.rootPlace top) (is : found.literal.kind = .funcLiteral)
    (inside : Below top ⟨found.literal, around⟩) (planned : edit ∈ (site.handlerEdits found).edits) :
    Aside site.source edits edit := by
  have literal := below.trans inside
  obtain ⟨body, has, kind⟩ := (literal.annotated parsed.annotated).literalBody is
  unfold handlerEdits at planned
  rw [has] at planned
  cases List.mem_singleton.1 planned
  refine .lines (literal.inside (List.mem_filter.2 ⟨List.mem_of_find?_eq_some has, ?_⟩)) kind _
  rw [kind]
  rfl

theorem literalEdits_aside {top : Place} (parsed : site.source.IsParsed) (below : Below site.source.rootPlace top)
    (apart : top.node.kind ≠ .funcLiteral) (tracks : scope.Tracks top) (planned : edit ∈ site.literalEdits scope) :
    Aside site.source (site.literalEdits scope) edit := by
  obtain ⟨part, listed, inside⟩ := List.mem_flatMap.1 planned
  rcases List.mem_append.1 listed with launched | handler
  · obtain ⟨found, noted, rfl⟩ := List.mem_map.1 launched
    obtain ⟨is, around, place, judged, _⟩ := tracks.launched found (List.mem_mergeSort.1 noted)
    refine (launchedEdits_aside parsed below apart is place (launchOf?_of_judge judged) inside).mono ?_
    exact fun other member => List.mem_flatMap.2 ⟨_, listed, member⟩
  · obtain ⟨found, noted, rfl⟩ := List.mem_map.1 handler
    obtain ⟨is, around, place, _⟩ := tracks.handlers found (List.mem_mergeSort.1 noted)
    exact handlerEdits_aside parsed below is place inside

theorem Segment.aside {top : Place} (segment : site.Segment top scope edit) (below : Below site.source.rootPlace top) :
    Aside site.source edits edit := by
  cases segment with
  | start inside _ part => exact .before ((below.trans inside).trans (below_of_mem_parts part)) _
  | stop inside part => exact .after ((below.trans inside).trans (below_of_mem_parts part)) _

/-- Edits of a declaration that are not about calls. -/
theorem DeclPlanned.exists_others (parsed : site.source.IsParsed) (member : decl ∈ FunctionDecl.all site.source)
    (planned : site.DeclPlanned decl id body edits scope passed segments) :
    ∃ others, edits.Perm (passed.map Passed.edit ++ others) ∧ ∀ edit ∈ others, Aside site.source edits edit := by
  have below := FunctionDecl.below_body parsed member planned.found
  have kind := (FunctionDecl.body_spec parsed member planned.found).1
  have apart : body.node.kind ≠ .funcLiteral := by rw [kind]; simp
  refine ⟨(site.signatureEdits id decl).edits ++
    (site.creationEdits scope ((site.graph.function? id).bind (·.entry)) body.node).edits ++ site.literalEdits scope ++
    segments, ?_, ?_⟩
  · rw [planned.edits, List.append_assoc]
    exact List.perm_append_comm_assoc _ _ _
  · intro edit listed
    simp only [List.mem_append] at listed
    rcases listed with ((signature | creation) | literal) | segment
    · exact signatureEdits_aside parsed member signature
    · exact creationEdits_aside below kind creation
    · refine (literalEdits_aside parsed below apart planned.tracks literal).mono ?_
      intro other inside
      rw [planned.edits]
      simp [inside]
    · exact (planned.segments edit segment).aside below

end HandleSite

/-! Whole files. -/

theorem Passed.Listed.joins {source : String} {one : Passed} (listed : one.Listed source) :
    one.edit.Joins one.list (min one.callee.handleIndex one.list.parts.length) one.argument := by
  have formed := listed.annotated.child? listed.found
  exact Edit.addToArguments_joins formed (formed.shaped.opens listed.opens) _ _

/-- A batch, told apart: `passed` are its edits of calls, `others` all other edits. -/
structure HandedOver (view : CallView) (visits : FunctionDecl → Bool) (handle : String) (batch : List Edit)
    (passed : List Passed) (others : List Edit) : Prop where
  split : batch.Perm (passed.map Passed.edit ++ others)
  /-- No call is edited twice. -/
  once : (passed.map Passed.call).Nodup
  /-- Nothing but a call of a function that takes the handle is edited as such. -/
  named : ∀ one ∈ passed, ∃ owner, view.Names owner one.call one.callee
  /-- Of these calls, exactly those are edited that stand in a visited declaration or in none. -/
  received : ∀ owner call callee, view.Names owner call callee →
    ((∃ one ∈ passed, one.target = (call, callee)) ↔ ∀ decl ∈ owner, visits decl = true)
  argument : ∀ one ∈ passed, one.argument ∈ ["nil", handle, handle ++ ".NewGoroutine()"]
  listed : ∀ one ∈ passed, one.Listed view.source.text
  /-- The argument goes where the parameter went, or last if there are fewer arguments. -/
  joins : ∀ one ∈ passed, one.edit.Joins one.list (min one.callee.handleIndex one.list.parts.length) one.argument
  /-- There are fewer arguments just where the place is another one. -/
  placed : ∀ one ∈ passed, (one.edit.Joins one.list one.callee.handleIndex one.argument ↔
    one.callee.handleIndex ≤ one.call.node.callArguments.length)
  others : ∀ edit ∈ others, Aside view.source batch edit

namespace HandedOver

variable {view : CallView} {visits : FunctionDecl → Bool} {handle : String} {batch : List Edit} {passed : List Passed}
  {others : List Edit}

/-- The walk over the items of a file, put into words. -/
theorem of_targets (parsed : view.source.IsParsed) (split : batch.Perm (passed.map Passed.edit ++ others))
    (targets : passed.map Passed.target = view.visitedCalls visits)
    (each : ∀ one ∈ passed, one.Listed view.source.text ∧ one.argument ∈ ["nil", handle, handle ++ ".NewGoroutine()"])
    (aside : ∀ edit ∈ others, Aside view.source batch edit) : HandedOver view visits handle batch passed others where
  split := split
  once := by
    have same : passed.map Passed.call = (passed.map Passed.target).map Prod.fst := by rw [List.map_map]; rfl
    rw [same, targets]
    exact CallView.visitedCalls_nodup parsed visits
  named := by
    intro one member
    have met : one.target ∈ view.visitedCalls visits := targets ▸ List.mem_map_of_mem member
    obtain ⟨owner, names, _⟩ := CallView.mem_visitedCalls.1 met
    exact ⟨owner, names⟩
  received := by
    intro owner call callee names
    rw [← List.mem_map, targets, CallView.mem_visitedCalls]
    constructor
    · rintro ⟨owner', names', visited⟩
      rw [names.owner_unique parsed names']
      exact visited
    · exact fun visited => ⟨owner, names, visited⟩
  argument := fun one member => (each one member).2
  listed := fun one member => (each one member).1
  joins := fun one member => (each one member).1.joins
  placed := by
    intro one member
    have listed := (each one member).1
    rw [Node.callArguments, listed.found]
    constructor
    · exact fun joins => joins.reached
    · intro enough
      have joins := listed.joins
      rw [Nat.min_eq_left enough] at joins
      exact joins
  others := aside

/-- A batch is carried out unless a block without statements is opened up. -/
theorem accepted (handed : HandedOver view visits handle batch passed others) (parsed : view.source.IsParsed)
    (busy : ∀ block lines, Below view.source.rootPlace block → block.kind = .block → block.node.statements = [] →
      Edit.addAtStart view.source.text block.node lines ∉ others) :
    ∃ changed, view.source.apply batch = .ok changed := by
  have inserts : ∀ edit ∈ batch, Edit.Inserts view.source.text edit := by
    intro edit member
    rcases List.mem_append.1 (handed.split.mem_iff.1 member) with call | other
    · obtain ⟨one, listed, rfl⟩ := List.mem_map.1 call
      obtain ⟨annotated, found, opens⟩ := handed.listed one listed
      exact Edit.inserts_addToArguments (annotated.child? found) opens _ _
    · rcases (handed.others edit other).inserts parsed with inserts | ⟨block, below, kind, empty, lines, rfl⟩
      · exact inserts
      · exact absurd other (busy block lines below kind empty)
  obtain ⟨text, performed⟩ := Edit.perform_of_inserts inserts
  exact Source.exists_apply performed

end HandedOver

namespace HandleSite

/-- The calls of the file as this pass looks at them. -/
def view (site : HandleSite) : CallView := ⟨site.graph, site.plan.widens, site.program, ⟨site.source, site.package⟩⟩

/-- Declarations that have a place in the graph. -/
def visits (site : HandleSite) (decl : FunctionDecl) : Bool := (site.graph.lookup? (decl.key site.package)).isSome

variable {site : HandleSite} {decl : FunctionDecl} {made : HandleEdits} {withDeferred : Bool}

theorem Passes.argument_mem {scope : HandleScope} {one : Passed} (passes : site.Passes scope one) :
    one.argument ∈ ["nil", site.handle, site.handle ++ ".NewGoroutine()"] := by
  rcases passes.argument with nothing | ⟨argument, _⟩
  · simp [nothing]
  · rw [argument]
    split <;> simp [goroutineHandle]

/-- What the edits of some declarations do for calls. -/
structure DeclsPlanned (site : HandleSite) (decls : List FunctionDecl) (edits : List Edit) (passed : List Passed)
    (others : List Edit) : Prop where
  split : edits.Perm (passed.map Passed.edit ++ others)
  targets : passed.map Passed.target = (decls.filter site.visits).flatMap site.view.bodyCalls
  each : ∀ one ∈ passed, one.Listed site.source.text ∧
    one.argument ∈ ["nil", site.handle, site.handle ++ ".NewGoroutine()"]
  others : ∀ edit ∈ others, Aside site.source edits edit

theorem DeclsPlanned.append {decls decls' : List FunctionDecl} {edits edits' others others' : List Edit}
    {passed passed' : List Passed} (first : site.DeclsPlanned decls edits passed others)
    (second : site.DeclsPlanned decls' edits' passed' others') :
    site.DeclsPlanned (decls ++ decls') (edits ++ edits') (passed ++ passed') (others ++ others') where
  split := by
    rw [List.map_append]
    refine (first.split.append second.split).trans ?_
    rw [List.append_assoc, List.append_assoc]
    exact (List.perm_append_comm_assoc _ _ _).append_left _
  targets := by rw [List.map_append, first.targets, second.targets, List.filter_append, List.flatMap_append]
  each := by
    intro one member
    rcases List.mem_append.1 member with earlier | later
    · exact first.each one earlier
    · exact second.each one later
  others := by
    intro edit member
    rcases List.mem_append.1 member with earlier | later
    · exact (first.others edit earlier).mono fun _ => List.mem_append_left _
    · exact (second.others edit later).mono fun _ => List.mem_append_right _

theorem declEdits_handed (fits : site.imports = site.program.importsOf site.source) (parsed : site.source.IsParsed)
    (builtIn : site.setup.catalog = Catalog.builtIn) (member : decl ∈ FunctionDecl.all site.source)
    (done : site.declEdits withDeferred decl = .ok made) :
    ∃ passed others, site.DeclsPlanned [decl] made.edits passed others := by
  rcases declEdits_planned parsed builtIn member done with
    ⟨nothing, missing⟩ | ⟨id, body, scope, passed, segments, planned⟩
  · refine ⟨[], [], ?_, ?_, by simp, by simp⟩
    · rw [nothing]
      exact .refl _
    · rcases missing with unknown | bodiless
      · simp [visits, unknown]
      · by_cases visited : site.visits decl = true <;> simp [visited, CallView.bodyCalls, bodiless]
  · obtain ⟨others, split, aside⟩ := planned.exists_others parsed member
    refine ⟨passed, others, split, ?_, ?_, aside⟩
    · have visited : site.visits decl = true := by simp [visits, planned.known]
      rw [planned.targets, List.filter_cons_of_pos visited, List.filter_nil, List.flatMap_singleton,
        CallView.bodyCalls, planned.found, Option.toList_some, List.flatMap_singleton, fits]
      rfl
    · exact fun one listed => ⟨(planned.passes one listed).listed, (planned.passes one listed).argument_mem⟩

theorem mapM_declEdits_handed (fits : site.imports = site.program.importsOf site.source)
    (parsed : site.source.IsParsed) (builtIn : site.setup.catalog = Catalog.builtIn) {decls : List FunctionDecl}
    {parts : List HandleEdits} (members : ∀ decl ∈ decls, decl ∈ FunctionDecl.all site.source)
    (done : decls.mapM (site.declEdits withDeferred) = .ok parts) :
    ∃ passed others, site.DeclsPlanned decls (parts.flatMap (·.edits)) passed others := by
  induction decls generalizing parts with
  | nil =>
      cases done
      exact ⟨[], [], .refl _, rfl, by simp, by simp⟩
  | cons decl decls ih =>
      obtain ⟨member, members⟩ := List.forall_mem_cons.1 members
      rw [List.mapM_cons] at done
      obtain ⟨made, first, done⟩ := exists_of_bind_eq_ok done
      obtain ⟨rest, later, done⟩ := exists_of_bind_eq_ok done
      cases done
      obtain ⟨passed, others, planned⟩ := declEdits_handed fits parsed builtIn member first
      obtain ⟨passed', others', planned'⟩ := ih members later
      exact ⟨passed ++ passed', others ++ others', planned.append planned'⟩

/-- Calls in variables at file level. -/
theorem fileLevelEdits_handed {view : CallView} (parsed : view.source.IsParsed) :
    ∃ passed : List Passed, fileLevelEdits view.graph view.widened view.atFile view.source = passed.map Passed.edit ∧
      view.fileCalls = passed.map Passed.target ∧ ∀ one ∈ passed, one.Listed view.source.text ∧ one.argument = "nil" := by
  refine exists_passed_flatMap fun item member => exists_passed_nil fun place met => ?_
  have annotated := FunctionDecl.annotated_of_mem_parts parsed (List.mem_filter.1 member).1
  exact (Go.Place.mem_descendants.1 met).annotated annotated

/-- What the second pass plans for a file. -/
theorem fileEdits_handed (fits : site.imports = site.program.importsOf site.source) (parsed : site.source.IsParsed)
    (builtIn : site.setup.catalog = Catalog.builtIn) (done : site.fileEdits withDeferred = .ok made) :
    ∃ passed others, HandedOver site.view site.visits site.handle made.edits passed others := by
  unfold fileEdits at done
  obtain ⟨parts, mapped, done⟩ := exists_of_bind_eq_ok done
  cases done
  obtain ⟨passed, others, planned⟩ := mapM_declEdits_handed fits parsed builtIn (fun _ => id) mapped
  obtain ⟨passed', edits, targets, each⟩ := fileLevelEdits_handed (show site.view.source.IsParsed from parsed)
  have same : fileLevelEdits site.graph site.plan.widens (.ofFile site.program site.package site.imports) site.source =
      passed'.map Passed.edit := by
    rw [fits]
    exact edits
  refine ⟨passed ++ passed', others, .of_targets parsed ?_ ?_ ?_ ?_⟩
  · dsimp only
    rw [same, List.map_append, List.append_assoc]
    refine (planned.split.append_right _).trans ?_
    rw [List.append_assoc]
    exact List.perm_append_comm.append_left _
  · rw [List.map_append, planned.targets, ← targets, CallView.visitedCalls]
    rfl
  · intro one member
    rcases List.mem_append.1 member with earlier | later
    · exact planned.each one earlier
    · exact ⟨(each one later).1, by simp [(each one later).2]⟩
  · exact fun edit member => (planned.others edit member).mono fun _ => List.mem_append_left _

end HandleSite

/-! Test files. -/

/-- Only functions of the graph are asked about. -/
theorem widenedCallee?_congr {graph : CallGraph} {widened widened' : Nat → Bool}
    (agree : ∀ id < graph.size, widened id = widened' id) (here : Surroundings) (source : String) (call : Place) :
    widenedCallee? graph widened here source call = widenedCallee? graph widened' here source call := by
  unfold widenedCallee?
  split
  · rfl
  · refine Option.bind_congr fun id found => ?_
    obtain ⟨key, _, known⟩ := Option.bind_eq_some_iff.1 found
    have inside : id < graph.size := (List.findIdx?_eq_some_iff_getElem.1 known).1
    rw [agree id inside]

theorem testCallEdits_congr {graph : CallGraph} {widened widened' : Nat → Bool}
    (agree : ∀ id < graph.size, widened id = widened' id) (program : Program) (file : ProgramFile) :
    testCallEdits graph widened program file = testCallEdits graph widened' program file := by
  unfold testCallEdits fileLevelEdits
  simp only [widenedCallee?_congr agree]

/-- Calls in the bodies of a test file. -/
theorem testBodies_handed {view : CallView} (parsed : view.source.IsParsed) :
    ∃ passed : List Passed,
      ((FunctionDecl.all view.source).flatMap fun decl =>
        match decl.body with
        | none => []
        | some body => body.descendants.filterMap fun call => do
            let callee ← widenedCallee? view.graph view.widened (view.inDecl decl) view.source.text call
            Edit.addArgument? call.node callee.handleIndex "nil") = passed.map Passed.edit ∧
      (FunctionDecl.all view.source).flatMap view.bodyCalls = passed.map Passed.target ∧
      ∀ one ∈ passed, one.Listed view.source.text ∧ one.argument = "nil" := by
  refine exists_passed_flatMap fun decl member => ?_
  rw [CallView.bodyCalls]
  cases found : decl.body with
  | none => exact ⟨[], rfl, rfl, by simp⟩
  | some body =>
      have annotated := FunctionDecl.annotated_body parsed member found
      rw [Option.toList_some, List.flatMap_singleton]
      exact exists_passed_nil fun place met => (Go.Place.mem_descendants.1 met).annotated annotated

/-- What is planned for a test file: calls get `nil`, and nothing else happens. -/
theorem testCallEdits_handed {view : CallView} (parsed : view.source.IsParsed) (handle : String) :
    ∃ passed, testCallEdits view.graph view.widened view.program view.file = passed.map Passed.edit ∧
      HandedOver view (fun _ => true) handle (passed.map Passed.edit) passed [] ∧
      ∀ one ∈ passed, one.argument = "nil" := by
  obtain ⟨passed, edits, targets, each⟩ := testBodies_handed parsed
  obtain ⟨passed', edits', targets', each'⟩ := HandleSite.fileLevelEdits_handed parsed
  have all : ∀ one ∈ passed ++ passed', one.Listed view.source.text ∧ one.argument = "nil" := by
    intro one member
    rcases List.mem_append.1 member with earlier | later
    · exact each one earlier
    · exact each' one later
  refine ⟨passed ++ passed', ?_, .of_targets parsed ?_ ?_ ?_ (by simp), fun one member => (all one member).2⟩
  · rw [List.map_append, ← edits, ← edits']
    rfl
  · rw [List.append_nil]
  · rw [List.map_append, ← targets, ← targets', CallView.visitedCalls, List.filter_true]
  · exact fun one member => ⟨(all one member).1, by simp [(all one member).2]⟩

/-! Whole runs. -/

/-- Declarations whose calls are looked at: in test files all, otherwise those with a place in the graph. -/
def CallView.visits (view : CallView) (decl : FunctionDecl) : Bool :=
  view.source.isTest || (view.graph.lookup? (decl.key view.file.package)).isSome

/-- The turn of a file. When it is taken up, only other files have changed; once its batch is carried
out, it stays as it is then. -/
structure Turn (graph : CallGraph) (plan : HandlePlan) (handle : String) (start final : Program) (index : Nat)
    (view : CallView) (batch : List Edit) (passed : List Passed) (others : List Edit) : Prop where
  graph : view.graph = graph
  widened : view.widened = plan.widens
  here : view.program.files[index]? = some view.file
  meanwhile : Program.Evolves (· ≠ index) start view.program
  handed : HandedOver view view.visits handle batch passed others
  test : view.source.isTest = true → others = [] ∧ ∀ one ∈ passed, one.argument = "nil"
  final : final.source? index = some (view.source.applied batch)
  /-- The batch is refused only if a block without statements is opened up. -/
  accepted : (∀ block lines, Below view.source.rootPlace block → block.kind = .block → block.node.statements = [] →
    Edit.addAtStart view.source.text block.node lines ∉ others) → ∃ changed, view.source.apply batch = .ok changed

theorem Turn.extend {graph : CallGraph} {plan : HandlePlan} {handle : String} {start before after final : Program}
    {index : Nat} {view : CallView} {batch : List Edit} {passed : List Passed} {others : List Edit}
    (turn : Turn graph plan handle before after index view batch passed others)
    (earlier : Program.Evolves (· ≠ index) start before) (later : Program.Evolves (· ≠ index) after final) :
    Turn graph plan handle start final index view batch passed others where
  graph := turn.graph
  widened := turn.widened
  here := turn.here
  meanwhile := (earlier.trans turn.meanwhile).mono fun _ => or_self_iff.1
  handed := turn.handed
  test := turn.test
  final := later.spares.trans turn.final
  accepted := turn.accepted

namespace Setup

variable {setup : Setup} {graph : CallGraph} {plan : HandlePlan} {run : Run} {file : Nat} {entry : ProgramFile}

/-- Without functions that took the handle there is nothing to do in test files. -/
theorem testCallEdits_nil (graph : CallGraph) (program : Program) (entry : ProgramFile) :
    testCallEdits graph (List.contains []) program entry = [] := by
  have none : ∀ here source call, widenedCallee? graph (List.contains []) here source call = none := by
    intro here source call
    unfold widenedCallee?
    split
    · rfl
    · exact Option.bind_eq_none_iff.2 fun id _ => rfl
  unfold testCallEdits fileLevelEdits
  simp only [none]
  refine List.append_eq_nil_iff.2 ⟨List.flatMap_eq_nil_iff.2 fun decl _ => ?_, List.flatMap_eq_nil_iff.2 fun item _ => ?_⟩
  · split
    · rfl
    · exact List.filterMap_eq_nil_iff.2 fun _ _ => rfl
  · exact List.filterMap_eq_nil_iff.2 fun _ _ => rfl

theorem resolveTests_eq_foldl (graph : CallGraph) (run : Run) :
    resolveTests graph run = run.testFiles.foldl (resolveTestFile graph) run := by
  unfold resolveTests
  split
  · rename_i empty
    have idle : ∀ file, resolveTestFile graph run file = run := by
      intro file
      unfold resolveTestFile
      split
      · rfl
      · rw [List.isEmpty_iff.1 empty, testCallEdits_nil]
        rfl
    induction run.testFiles with
    | nil => rfl
    | cons file files ih => rw [List.foldl_cons, idle, ← ih]
  · rfl

theorem applyBatch_widened (run : Run) (file : Nat) (edits : List Edit) (imports : List String) :
    (run.applyBatch file edits imports).2.widened = run.widened := by
  unfold Run.applyBatch
  split
  · rfl
  · split
    · rfl
    · split
      · rfl
      · rfl

theorem resolveTestFile_widened (graph : CallGraph) (run : Run) (file : Nat) :
    (resolveTestFile graph run file).widened = run.widened := by
  unfold resolveTestFile
  split
  · rfl
  · exact applyBatch_widened run file _ _

theorem propagateFile_widened (setup : Setup) (graph : CallGraph) (plan : HandlePlan) (run : Run) (file : Nat) :
    (setup.propagateFile graph plan run file).widened = run.widened := by
  unfold propagateFile
  split
  · rfl
  · dsimp only
    split
    · exact applyBatch_widened (run.record _) file _ _
    · split
      · exact applyBatch_widened ((run.recordFailure _ _).record _) file _ _
      · exact applyBatch_widened ((run.recordFailure _ _).record _) file _ _

theorem foldl_widened {step : Run → Nat → Run} (each : ∀ run file, (step run file).widened = run.widened)
    (files : List Nat) (run : Run) : (files.foldl step run).widened = run.widened := by
  induction files generalizing run with
  | nil => rfl
  | cons file files ih => rw [List.foldl_cons, ih, each]

/-- The plan of the second pass is what test files are adapted to. -/
theorem propagate_widened (setup : Setup) (graph : CallGraph) (run : Run) :
    ∀ id < graph.size, (setup.propagate graph run).2.widened.contains id = (setup.propagate graph run).1.widens id := by
  intro id inside
  have kept : (setup.propagate graph run).2.widened = (HandlePlan.compute graph run.seeds).widenedInOrder graph :=
    foldl_widened (setup.propagateFile_widened graph _) _ _
  rw [kept, Bool.eq_iff_iff, List.contains_iff_mem]
  simp [HandlePlan.widenedInOrder, inside, propagate]

/-- The turn of a production file. -/
theorem propagate_turn (graph : CallGraph) (builtIn : setup.catalog = Catalog.builtIn) (parsed : run.program.IsParsed)
    (here : run.program.files[file]? = some entry) (production : entry.source.isTest = false) :
    ∃ view batch passed others, Turn graph (setup.propagate graph run).1 setup.settings.handle run.program
      (setup.propagate graph run).2.program file view batch passed others := by
  obtain ⟨middle, before, here', withDeferred, made, done, final⟩ := setup.propagate_batch graph here production
  have formed : entry.source.IsParsed := parsed entry (List.mem_of_getElem? here)
  obtain ⟨passed, others, handed⟩ := HandleSite.fileEdits_handed rfl formed builtIn done
  generalize (setup.propagate graph run).1 = plan at done handed ⊢
  refine ⟨(HandleSite.taking setup graph plan middle entry).view, made.edits, passed, others, rfl, rfl, here', before,
    ?_, ?_, final, fun busy => handed.accepted formed busy⟩
  · have same : (HandleSite.taking setup graph plan middle entry).view.visits =
        (HandleSite.taking setup graph plan middle entry).visits := by
      funext decl
      change (entry.source.isTest || _) = _
      rw [production]
      rfl
    rw [same]
    exact handed
  · intro contrary
    cases production.symm.trans contrary

theorem resolveTestFile_source? (graph : CallGraph) (here : run.program.files[file]? = some entry) :
    (resolveTestFile graph run file).program.source? file =
      some (entry.source.applied (testCallEdits graph run.widened.contains run.program entry)) := by
  unfold resolveTestFile
  rw [here]
  exact run.applyBatch_source? (Program.source?_of_getElem? here) _ _

/-- The turn of a test file: only other files have changed when it is taken up, and it stays as it is then. -/
theorem resolveTests_batch (graph : CallGraph) (here : run.program.files[file]? = some entry)
    (test : entry.source.isTest = true) :
    ∃ middle : Run, Program.Evolves (· ≠ file) run.program middle.program ∧
      middle.program.files[file]? = some entry ∧ (resolveTests graph run).program.source? file =
        some (entry.source.applied (testCallEdits graph run.widened.contains middle.program entry)) := by
  rw [resolveTests_eq_foldl]
  have member : file ∈ run.testFiles := (Run.mem_filesWhere (Program.source?_of_getElem? here)).2 test
  obtain ⟨earlier, _, _, _, _, before, after⟩ :=
    Run.foldl_turn (resolveTestFile_evolves graph) (run.filesWhere_nodup _) member run
  have here' := before.spares_file.trans here
  refine ⟨_, before, here', after.spares.trans ?_⟩
  rw [resolveTestFile_source? graph here', foldl_widened (resolveTestFile_widened graph)]

theorem resolveTests_turn (handle : String) (agree : ∀ id < graph.size, run.widened.contains id = plan.widens id)
    (parsed : run.program.IsParsed) (here : run.program.files[file]? = some entry) (test : entry.source.isTest = true) :
    ∃ view batch passed others, Turn graph plan handle run.program (resolveTests graph run).program file view batch
      passed others := by
  obtain ⟨middle, before, here', batch⟩ := resolveTests_batch graph here test
  have formed : entry.source.IsParsed := parsed entry (List.mem_of_getElem? here)
  let view : CallView := ⟨graph, plan.widens, middle.program, entry⟩
  obtain ⟨passed, edits, handed, each⟩ := testCallEdits_handed (show view.source.IsParsed from formed) handle
  have all : view.visits = fun _ => true := by
    funext decl
    change (entry.source.isTest || _) = true
    rw [test]
    rfl
  refine ⟨view, _, passed, [], rfl, rfl, here', before, all ▸ handed, fun _ => ⟨rfl, each⟩, ?_,
    fun busy => handed.accepted formed busy⟩
  rw [batch, testCallEdits_congr agree, ← edits]
  rfl

/-- A stage for production files leaves test files alone, and the other way round. -/
theorem Evolves.apart {before after : Program} {start : Run} {test : Source → Bool} {source : Source}
    (evolves : Program.Evolves (· ∈ start.filesWhere test) before after)
    (found : start.program.source? file = some source) (fails : test source = false) :
    Program.Evolves (· ≠ file) before after := by
  refine evolves.mono ?_
  rintro index listed rfl
  rw [Run.mem_filesWhere found, fails] at listed
  cases listed

end Setup

/-- Calls and the handle over a whole run: every file has its turn. -/
theorem handsOver_of_load {disk : Disk} {root : String} {selection : Selection} {program : Program}
    (loaded : Loader.load disk root selection = .ok program) (settings : Settings) :
    let setup := Setup.ofProgram program Catalog.builtIn settings
    let graph := CallGraph.build program settings.handle
    let injected := setup.inject (Run.ofProgram program setup)
    let propagated := setup.propagate graph injected
    let resolved := Setup.resolveTests graph propagated.2
    ∀ index < program.files.length, ∃ view batch passed others,
      Turn graph propagated.1 settings.handle injected.program resolved.program index view batch passed others := by
  intro setup graph injected propagated resolved index inside
  have evolves := setup.inject_evolves (Run.ofProgram program setup)
  have parsed : injected.program.IsParsed := evolves.isParsed (Loader.load_isParsed loaded)
  have evolves' := setup.propagate_evolves graph injected
  obtain ⟨entry, here, _⟩ := evolves.files index program.files[index] (List.getElem?_eq_getElem inside)
  have found := Program.source?_of_getElem? here
  cases test : entry.source.isTest with
  | false =>
      obtain ⟨view, batch, passed, others, turn⟩ := Setup.propagate_turn graph
        (show setup.catalog = Catalog.builtIn from rfl) parsed here test
      have later : Program.Evolves (· ≠ index) propagated.2.program resolved.program := by
        have touched := Setup.resolveTests_evolves graph propagated.2
        rw [Run.testFiles_evolves evolves'] at touched
        exact Setup.Evolves.apart touched found test
      exact ⟨view, batch, passed, others, turn.extend (.refl _) later⟩
  | true =>
      have earlier : Program.Evolves (· ≠ index) injected.program propagated.2.program :=
        Setup.Evolves.apart evolves' found (by simp [test])
      obtain ⟨entry', here', _, _, kept⟩ := earlier.files index entry here
      cases kept fun contrary => contrary rfl
      obtain ⟨view, batch, passed, others, turn⟩ := Setup.resolveTests_turn settings.handle
        (setup.propagate_widened graph injected) (evolves'.isParsed parsed) here' test
      exact ⟨view, batch, passed, others, turn.extend earlier (.refl _)⟩

/-- `main` and a function without a name call `fetch`, which makes a request. -/
def blankCaller : String :=
  "package main\n\nimport \"net/http\"\n\nfunc main() \x7b\n\tfetch()\n\x7d\n\nfunc fetch() \x7b\n\thttp.Get(\"x\")\n\x7d\n\n" ++
    "func _() \x7b\n\tfetch()\n\x7d\n"

theorem handsOver_of_load_blankCaller :
    ∃ program, Loader.load (soleDisk blankCaller) "/" {} = .ok program ∧
      let setup := Setup.ofProgram program Catalog.builtIn {}
      let graph := CallGraph.build program "nrTxn"
      let injected := setup.inject (Run.ofProgram program setup)
      let propagated := setup.propagate graph injected
      let resolved := Setup.resolveTests graph propagated.2
      ∀ index < program.files.length, ∃ view batch passed others,
        Turn graph propagated.1 "nrTxn" injected.program resolved.program index view batch passed others := by
  have opens : isMainFile blankCaller = true := isMainFile_of_plain (by decide +kernel)
  have loaded := Loader.load_soleDisk opens
  exact ⟨_, loaded, handsOver_of_load loaded {}⟩

/-- A call in a body that names a function which takes the handle, and that no edit of the file touches. -/
def HandleSite.leavesCall (site : HandleSite) : Bool :=
  match site.fileEdits true with
  | .error _ => false
  | .ok made => (FunctionDecl.all site.source).any fun decl => (site.view.bodyCalls decl).any fun found =>
      made.edits.all fun edit => decide (edit.stop ≤ found.1.start) || decide (found.1.stop ≤ edit.start)

theorem HandleSite.exists_of_leavesCall {site : HandleSite} (leaves : site.leavesCall = true) :
    ∃ made decl call callee, site.fileEdits true = .ok made ∧ site.view.Names (some decl) call callee ∧
      ∀ edit ∈ made.edits, edit.stop ≤ call.start ∨ call.stop ≤ edit.start := by
  unfold leavesCall at leaves
  split at leaves
  · cases leaves
  · rename_i made done
    obtain ⟨decl, member, leaves⟩ := List.any_eq_true.1 leaves
    obtain ⟨⟨call, callee⟩, listed, leaves⟩ := List.any_eq_true.1 leaves
    obtain ⟨body, found, below, named⟩ := CallView.mem_bodyCalls.1 listed
    refine ⟨made, decl, call, callee, done, .inBody member found below named, ?_⟩
    intro edit planned
    have apart := List.all_eq_true.1 leaves edit planned
    rwa [Bool.or_eq_true, decide_eq_true_iff, decide_eq_true_iff] at apart

/-- The call in the function without a name stays as it is. -/
theorem blankCaller_leavesCall :
    ∃ program, Loader.load (soleDisk blankCaller) "/" {} = .ok program ∧
      let setup := Setup.ofProgram program Catalog.builtIn {}
      let graph := CallGraph.build program "nrTxn"
      let injected := setup.inject (Run.ofProgram program setup)
      ∃ entry ∈ injected.program.files,
        let site := HandleSite.taking setup graph (setup.propagate graph injected).1 injected entry
        ∃ made decl call callee, site.fileEdits true = .ok made ∧ site.view.Names (some decl) call callee ∧
          ∀ edit ∈ made.edits, edit.stop ≤ call.start ∨ call.stop ≤ edit.start := by
  have leaves : (Loader.load (soleDisk blankCaller) "/" {}).toOption.any (fun program =>
      let setup := Setup.ofProgram program Catalog.builtIn {}
      let graph := CallGraph.build program "nrTxn"
      let injected := setup.inject (Run.ofProgram program setup)
      let plan := HandlePlan.compute graph injected.seeds
      injected.program.files.any fun entry =>
        (HandleSite.taking setup graph plan injected entry).leavesCall) = true := by decide +kernel
  obtain ⟨program, loaded, leaves⟩ := exists_of_any_toOption leaves
  obtain ⟨entry, listed, leaves⟩ := List.any_eq_true.1 leaves
  exact ⟨program, loaded, entry, listed, HandleSite.exists_of_leavesCall leaves⟩

end TraceWeave
