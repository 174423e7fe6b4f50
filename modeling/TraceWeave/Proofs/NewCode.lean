import TraceWeave.Proofs.History
import TraceWeave.Proofs.InjectRest
import TraceWeave.Proofs.HandleEdits

/-!
The code that the stages write. Each edit is one piece of code in one place: beside a statement, in a
list, at the start of a block, or around an argument. Code names packages as the file calls them, and
every package it names is on the list of imports that goes with the batch.
-/
namespace TraceWeave

open Go (Node Place)
open Text (isBlank)

/-- A part of a line of code: a text, or what a file calls a package. -/
inductive Piece where
  | text (text : String)
  | package (path : String)

namespace Piece

def render (imports : Imports) : Piece → String
  | .text shown => shown
  | .package path => imports.callName path

def path? : Piece → Option String
  | .text _ => none
  | .package path => some path

/-- The pieces of a line, one after the other. -/
def line (imports : Imports) : List Piece → String
  | [] => ""
  | piece :: pieces => piece.render imports ++ line imports pieces

end Piece

/-- What the stages write with the built-in catalog. -/
inductive Code where
  | wrappedHandler (wrapped handler : String)
  /-- A name in the place of another one. -/
  | rename (fresh : String)
  | middleware (router : String)
  | wrapperStart (wrapper : String)
  | wrapperStop
  | parameter
  | nothing
  | handle
  | goroutineHandle
  /-- The handle of `main`. -/
  | transaction
  | fromRequest (request : String)
  | segmentStart (segment function : String)
  | segmentStop (segment : String)
  /-- The agent, where `failure` holds the error. -/
  | agent (failure : String)

namespace Code

/-- The name that the application reports, as an argument. -/
def appName : Option String → List Piece
  | some app => [.text ", ", .package Integration.agentPath, .text ".ConfigAppName(", .text (Text.quote app), .text ")"]
  | none => []

/-- The lines of a piece of code. -/
def lines (settings : Settings) : Code → List (List Piece)
  | .wrappedHandler wrapped handler =>
      [[.text wrapped, .text " := ", .package Slog.wrapperPath, .text ".WrapHandler(", .text settings.agent, .text ", ",
        .text handler, .text ")"]]
  | .rename fresh => [[.text fresh]]
  | .middleware router =>
      [[.text router, .text ".Use(", .package Gin.middlewarePath, .text ".Middleware(", .text settings.agent, .text "))"]]
  | .wrapperStart wrapper =>
      [[.package Integration.agentPath, .text ".", .text wrapper, .text "(", .text settings.agent, .text ", "]]
  | .wrapperStop => [[.text ")"]]
  | .parameter => [[.text settings.handle, .text " *", .package Integration.agentPath, .text ".Transaction"]]
  | .nothing => [[.text "nil"]]
  | .handle => [[.text settings.handle]]
  | .goroutineHandle => [[.text settings.handle, .text ".NewGoroutine()"]]
  | .transaction =>
      [[.text settings.handle, .text " := ", .text settings.agent, .text ".StartTransaction(\"main\")"],
        [.text "defer ", .text settings.handle, .text ".End()"]]
  | .fromRequest request =>
      [[.text settings.handle, .text " := ", .package Integration.agentPath, .text ".FromContext(", .text request,
        .text ".Context())"]]
  | .segmentStart segment function =>
      [[.text segment, .text " := ", .text settings.handle, .text ".StartSegment(\"http.", .text function, .text "\")"]]
  | .segmentStop segment => [[.text segment, .text ".End()"]]
  | .agent failure =>
      [[.text settings.agent, .text ", ", .text failure, .text " := ", .package Integration.agentPath,
          .text ".NewApplication(", .package Integration.agentPath, .text ".ConfigFromEnvironment()"] ++
          appName settings.appName ++ [.text ")"],
        [.text "if ", .text failure, .text " != nil \x7b"],
        [.text "\tpanic(", .text failure, .text ")"],
        [.text "\x7d"],
        [.text "defer ", .text settings.agent, .text ".Shutdown(5 * ", .package "time", .text ".Second)"]]

/-- The code as a file writes it. -/
def render (settings : Settings) (imports : Imports) (code : Code) : List String :=
  (code.lines settings).map (Piece.line imports)

/-- Import paths of the packages that the code names. -/
def packages (settings : Settings) (code : Code) : List String :=
  (code.lines settings).flatten.filterMap Piece.path?

end Code

/-- Where an edit puts lines of code. -/
inductive Placed (source : String) : List String → Edit → Prop where
  | at (offset : Nat) (text : String) : Placed source [text] (Edit.insertAt offset text)
  | before (statement : Node) (text : String) : Placed source [text] (Edit.addBefore source statement text)
  | after (statement : Node) (text : String) : Placed source [text] (Edit.addAfter source statement text)
  | parameter (list : Node) (text : String) : Placed source [text] (Edit.addParameter list text)
  | argument (list : Node) (index : Nat) (text : String) : Placed source [text] (Edit.addToArguments list index text)
  | atStart (block : Node) (lines : List String) : Placed source lines (Edit.addAtStart source block lines)
  /-- A name gives way to one that has all its characters. -/
  | instead {node : Node} {text : String} (longer : (node.text source).toList.Sublist text.toList) :
      Placed source [text] (Edit.replaceNode node text)

section
variable {source text : String} {lines : List String} {edit : Edit}

theorem Edit.retains_addAtStart (visible : Char → Bool) (blanks : ∀ c, isBlank c = true → visible c = false)
    (block : Node) (lines : List String) : Retains visible source (addAtStart source block lines) := by
  unfold addAtStart
  split
  · unfold addBeforeFirst
    dsimp only
    split
    · exact retains_of_point rfl
    · exact retains_of_point rfl
  · unfold addToEmpty
    dsimp only
    split
    · rename_i empty
      unfold Retains
      dsimp only
      rw [List.filter_eq_nil_iff.2]
      · exact List.nil_sublist _
      · intro c member
        simp [blanks c (List.all_eq_true.1 empty c member)]
    · exact retains_of_point rfl

/-- New code takes nothing away that can be seen. -/
theorem Placed.retains (placed : Placed source lines edit) : edit.Retains (!isBlank ·) source := by
  cases placed with
  | «at» offset text => exact Edit.retains_of_point rfl
  | before statement text =>
      unfold Edit.addBefore
      dsimp only
      split
      · exact Edit.retains_of_point rfl
      · exact Edit.retains_of_point rfl
  | after statement text => exact Edit.retains_of_point rfl
  | parameter list text => exact Edit.retains_of_point (Edit.point_addParameter list text)
  | argument list index text => exact Edit.retains_of_point (Edit.point_addToArguments list index text)
  | atStart block lines => exact Edit.retains_addAtStart _ (by simp) block lines
  | instead longer => exact longer.filter _

end

/-- An edit that puts code in its place, and names only packages on a list. -/
def Coded (settings : Settings) (imports : Imports) (source : String) (required : List String) (edit : Edit) : Prop :=
  ∃ code : Code, Placed source (code.render settings imports) edit ∧ code.packages settings ⊆ required

section
variable {settings : Settings} {imports : Imports} {source text : String} {required more : List String} {edit : Edit}

theorem Coded.of_line (code : Code) (written : code.render settings imports = [text]) (placed : Placed source [text] edit)
    (named : code.packages settings ⊆ required) : Coded settings imports source required edit :=
  ⟨code, written ▸ placed, named⟩

theorem Coded.mono (coded : Coded settings imports source required edit) (all : required ⊆ more) :
    Coded settings imports source more edit := by
  obtain ⟨code, placed, named⟩ := coded
  exact ⟨code, placed, List.Subset.trans named all⟩

end

/-! The first pass. -/

/-- The new name has all characters of the old one. -/
def Binding.Extends (binding : Binding) : Prop := binding.name.toList.Sublist binding.replacement.toList

namespace Setup

variable {setup : Setup} {view : StatementView} {injection : Injection} {supply supply' : NameSupply}

/-- What an integration writes for a statement. -/
structure Writes (setup : Setup) (view : StatementView) (injection : Injection) : Prop where
  edits : ∀ edit ∈ injection.toEdits view.source view.node,
    Coded setup.settings view.imports view.source injection.imports edit
  binding : ∀ binding ∈ injection.binding.toList, binding.Extends

theorem slog_writes (done : Slog.generate view setup.names supply = (.ok injection, supply')) :
    setup.Writes view injection := by
  unfold Slog.generate at done
  obtain ⟨wrapped, middle, fresh, done⟩ := Naming.bind_eq_ok done
  cases Naming.pure_eq_ok done
  constructor
  · simp only [Injection.toEdits, List.map_cons, List.map_nil, List.forall_mem_singleton]
    refine .of_line (.wrappedHandler wrapped ((Slog.handler? view).getD "")) ?_ (.after view.node _) ?_
    · simp [Code.render, Code.lines, Piece.line, Piece.render, names, String.append_assoc]
    · exact List.Subset.refl [Slog.wrapperPath]
  · rw [Option.toList_some, List.forall_mem_singleton]
    obtain ⟨number, rfl⟩ := Naming.exists_of_fresh fresh
    simp only [Binding.Extends, String.toList_append]
    exact (List.sublist_append_right _ _).trans (List.sublist_append_left _ _)

theorem gin_writes (done : Gin.generate view setup.names supply = (.ok injection, supply')) :
    setup.Writes view injection := by
  unfold Gin.generate at done
  cases Naming.pure_eq_ok done
  refine ⟨?_, by simp⟩
  simp only [Injection.toEdits, List.map_cons, List.map_nil, List.forall_mem_singleton]
  refine .of_line (.middleware ((Gin.router? view).getD "")) ?_ (.after view.node _) ?_
  · simp [Code.render, Code.lines, Piece.line, Piece.render, names, String.append_assoc]
  · exact List.Subset.refl [Gin.middlewarePath]

theorem server_writes (done : Http.generateServer view setup.names supply = (.ok injection, supply')) :
    setup.Writes view injection := by
  rcases generateServer_cases view with nothing | ⟨call, function, wrapper, first, last, _, _, made⟩
  · cases (nothing setup.names supply).symm.trans done
    exact ⟨by simp [Injection.toEdits], by simp⟩
  · cases (made setup.names supply).symm.trans done
    refine ⟨?_, by simp⟩
    simp only [Injection.toEdits, List.map_cons, List.map_nil, List.forall_mem_cons]
    refine ⟨.of_line (.wrapperStart wrapper) ?_ (.at first.start _) ?_,
      .of_line .wrapperStop rfl (.at last.stop _) (List.nil_subset _), by simp⟩
    · simp [Code.render, Code.lines, Piece.line, Piece.render, names, String.append_assoc]
    · exact List.Subset.refl [Integration.agentPath]

theorem generate_writes {isMain : Bool} {integration : Integration} (builtIn : setup.catalog = Catalog.builtIn)
    (found : setup.integrationFor? isMain view = some integration) (apart : integration.needsHandle = false)
    (done : integration.generate view setup.names supply = (.ok injection, supply')) : setup.Writes view injection := by
  rcases mem_of_integrationFor? builtIn found apart with rfl | rfl | rfl
  · exact slog_writes done
  · exact gin_writes done
  · exact server_writes done

variable {site : InjectionSite} {imports : Imports} {plan result : FilePlan} {bindings : List Binding}
  {next : FilePlan × List Binding}

/-- Everything planned so far is code that the list of imports covers. -/
def Covers (setup : Setup) (imports : Imports) (source : String) (plan : FilePlan) : Prop :=
  ∀ edit ∈ plan.edits, Coded setup.settings imports source plan.imports edit

theorem carryOver_coded {path source : String} {line : Nat} {statement : Node} {binding : Binding}
    (longer : binding.Extends) (settings : Settings) (required : List String) :
    ∀ edit ∈ (binding.carryOver path source line statement).1, Coded settings imports source required edit := by
  unfold Binding.carryOver
  split
  · simp
  · rename_i nodes uses
    intro edit member
    obtain ⟨node, listed, rfl⟩ := List.mem_map.1 member
    rw [(NameUses.of_arguments uses).1] at listed
    have test := (List.mem_filter.1 listed).2
    simp only [Bool.and_eq_true, beq_iff_eq] at test
    refine .of_line (.rename binding.replacement) ?_ (.instead ?_) (List.nil_subset _)
    · simp [Code.render, Code.lines, Piece.line, Piece.render]
    · rw [test.1.2]
      exact longer
  · simp

/-- One statement. -/
theorem injectStatement_covers (builtIn : setup.catalog = Catalog.builtIn)
    (covers : setup.Covers view.imports view.source plan) (longer : ∀ binding ∈ bindings, binding.Extends)
    (done : setup.injectStatement site (plan, bindings) view supply = (.ok next, supply')) :
    setup.Covers view.imports view.source next.1 ∧ ∀ binding ∈ next.2, binding.Extends := by
  unfold injectStatement at done
  dsimp only at done
  generalize carriedOver : plan.addCarried (bindings.map (Binding.carryOver site.source.path view.source
    (site.source.nodeLine view.node) view.node)) = begun at done
  have carried : setup.Covers view.imports view.source begun := by
    rw [← carriedOver]
    intro edit member
    rcases List.mem_append.1 member with old | new
    · exact covers edit old
    · obtain ⟨part, listed, inside⟩ := List.mem_flatMap.1 new
      obtain ⟨binding, held, rfl⟩ := List.mem_map.1 listed
      exact carryOver_coded (longer binding held) _ _ edit inside
  have remain : ∀ binding ∈ Binding.remaining view.source view.node bindings, binding.Extends :=
    fun binding member => longer binding (List.mem_filter.1 member).1
  rcases injectInto_cases builtIn done with
    ⟨_, ⟨edits, imports, _⟩, same⟩ | ⟨_, integration, injection, middle, found, apart, generated, _, rfl⟩
  · rw [same]
    refine ⟨?_, remain⟩
    unfold Covers
    rw [edits, imports]
    exact carried
  · have writes := generate_writes builtIn found apart generated
    constructor
    · intro edit member
      rcases List.mem_append.1 member with old | new
      · exact (carried edit old).mono (List.subset_append_left _ _)
      · exact (writes.edits edit new).mono (List.subset_append_right _ _)
    · intro binding member
      rcases List.mem_append.1 member with old | new
      · exact remain binding old
      · exact writes.binding binding new

theorem injectSequence_covers {statements : List Node} (builtIn : setup.catalog = Catalog.builtIn)
    (covers : setup.Covers imports site.source.text plan)
    (done : setup.injectSequence site imports plan statements supply = (.ok result, supply')) :
    setup.Covers imports site.source.text result := by
  unfold injectSequence at done
  obtain ⟨next, middle, walked, done⟩ := Naming.bind_eq_ok done
  cases Naming.pure_eq_ok done
  let holds (state : FilePlan × List Binding) : Prop :=
    setup.Covers imports site.source.text state.1 ∧ ∀ binding ∈ state.2, binding.Extends
  have start : holds (plan, []) := ⟨covers, by simp⟩
  refine And.left (Naming.foldlM_keeps ?_ start walked : holds next)
  intro view member state supply next supply' ⟨covers, longer⟩ stepped
  obtain ⟨pair, _, rfl⟩ := List.mem_map.1 member
  exact injectStatement_covers builtIn covers longer stepped

theorem injectDecl_covers {source : Source} {package : Nat} {packageName : String} {decl : FunctionDecl}
    (builtIn : setup.catalog = Catalog.builtIn) (covers : setup.Covers imports source.text plan)
    (done : setup.injectDecl source package packageName imports plan decl = .ok result) :
    setup.Covers imports source.text result := by
  unfold injectDecl at done
  split at done
  · cases done
    exact covers
  · dsimp only at done
    unfold injectBody at done
    refine Naming.foldlM_keeps ?_ covers (Prod.ext done rfl)
    exact fun statements _ state supply next supply' covers stepped => injectSequence_covers builtIn covers stepped

/-- What the first pass plans for a file. -/
theorem planInjections_coded {program : Program} {file : Nat} {source : Source}
    (builtIn : setup.catalog = Catalog.builtIn) (found : program.source? file = some source)
    (done : setup.planInjections program file = .ok plan) :
    ∀ edit ∈ plan.edits, Coded setup.settings (program.importsOf source) source.text plan.imports edit := by
  obtain ⟨entry, here, rfl⟩ := Option.map_eq_some_iff.1 found
  have start : setup.Covers (program.importsOf entry.source) entry.source.text {} := by simp [Covers]
  unfold planInjections at done
  rw [here] at done
  split at done
  · rename_i other package same known
    cases same
    exact keeps_of_foldlM (fun decl _ state next covers stepped => injectDecl_covers builtIn covers stepped) start done
  · cases done
    exact start

end Setup

/-! The second pass. -/

theorem Coded.of_addArgument? {settings : Settings} {imports : Imports} {source text : String} {required : List String}
    {call : Node} {index : Nat} {edit : Edit} (code : Code) (written : code.render settings imports = [text])
    (named : code.packages settings = []) (found : Edit.addArgument? call index text = some edit) :
    Coded settings imports source required edit := by
  obtain ⟨list, _, rfl⟩ := Option.map_eq_some_iff.1 found
  exact .of_line code written (.argument list index text) (named ▸ List.nil_subset _)

theorem fileLevelEdits_coded {graph : CallGraph} {widened : Nat → Bool} {here : Surroundings} {source : Source}
    (settings : Settings) (imports : Imports) (required : List String) :
    ∀ edit ∈ fileLevelEdits graph widened here source, Coded settings imports source.text required edit := by
  intro edit planned
  obtain ⟨item, _, planned⟩ := List.mem_flatMap.1 planned
  obtain ⟨call, _, planned⟩ := List.mem_filterMap.1 planned
  obtain ⟨callee, _, added⟩ := Option.bind_eq_some_iff.1 planned
  exact .of_addArgument? .nothing rfl rfl added

namespace HandleSite

variable {site : HandleSite} {edit : Edit}

/-- Everything planned is code that the list of imports covers. -/
def Covers (site : HandleSite) (part : HandleEdits) : Prop :=
  ∀ edit ∈ part.edits, Coded site.setup.settings site.imports site.source.text part.imports edit

theorem callEdit_coded {state : List Edit × HandleScope} {required : List String} (here : Surroundings) (call : Place)
    (each : ∀ edit ∈ state.1, Coded site.setup.settings site.imports site.source.text required edit) :
    ∀ edit ∈ (site.callEdit here state call).1,
      Coded site.setup.settings site.imports site.source.text required edit := by
  intro edit planned
  unfold callEdit at planned
  split at planned
  · exact each edit planned
  · rename_i callee _
    dsimp only at planned
    rcases List.mem_append.1 planned with old | new
    · exact each edit old
    · rw [Option.mem_toList] at new
      split at new
      · exact .of_addArgument? .nothing rfl rfl new
      · split at new
        · refine .of_addArgument? .goroutineHandle ?_ rfl new
          simp [Code.render, Code.lines, Piece.line, Piece.render, goroutineHandle, handle]
        · refine .of_addArgument? .handle ?_ rfl new
          simp [Code.render, Code.lines, Piece.line, Piece.render, handle]

theorem callEdits_coded (site : HandleSite) (here : Surroundings) (scope : HandleScope) (body : Place) (required : List String) :
    ∀ edit ∈ (site.callEdits here scope body).1,
      Coded site.setup.settings site.imports site.source.text required edit := by
  unfold callEdits
  have start : ∀ edit ∈ (([], scope) : List Edit × HandleScope).1,
      Coded site.setup.settings site.imports site.source.text required edit := by simp
  generalize (([], scope) : List Edit × HandleScope) = state at start ⊢
  induction body.descendants generalizing state with
  | nil => exact start
  | cons call calls ih =>
      rw [List.foldl_cons]
      exact ih _ (callEdit_coded here call start)

theorem parameter_coded (list : Node) :
    Coded site.setup.settings site.imports site.source.text [Integration.agentPath]
      (Edit.addParameter list site.handleParameter) := by
  refine .of_line .parameter ?_ (.parameter list _) (List.Subset.refl [Integration.agentPath])
  simp [Code.render, Code.lines, Piece.line, Piece.render, handleParameter, Setup.handleParameter, Setup.agentPackage,
    String.append_assoc]

theorem fromRequest_coded (body : Node) (request : String) :
    Coded site.setup.settings site.imports site.source.text [Integration.agentPath]
      (Edit.addAtStart site.source.text body [site.fromRequest request]) := by
  refine .of_line (.fromRequest request) ?_ (.atStart body _) (List.Subset.refl [Integration.agentPath])
  simp [Code.render, Code.lines, Piece.line, Piece.render, fromRequest, handle, Setup.agentPackage, String.append_assoc]

theorem signatureEdits_covers (id : Nat) (decl : FunctionDecl) : site.Covers (site.signatureEdits id decl) := by
  unfold signatureEdits
  split
  · split
    · exact List.forall_mem_singleton.2 (parameter_coded _)
    · simp [Covers]
  · simp [Covers]

theorem creationEdits_covers (scope : HandleScope) (entry : Option Entry) (body : Node) :
    site.Covers (site.creationEdits scope entry body) := by
  unfold creationEdits creation
  split
  · rcases entry with _ | _ | (_ | request) | _
    · simp [Covers]
    · refine List.forall_mem_singleton.2 ⟨.transaction, ?_, List.nil_subset _⟩
      rw [show Code.transaction.render site.setup.settings site.imports =
          [site.handle ++ " := " ++ site.setup.settings.agent ++ ".StartTransaction(\"main\")",
            "defer " ++ site.handle ++ ".End()"] by
        simp [Code.render, Code.lines, Piece.line, Piece.render, handle, String.append_assoc]]
      exact .atStart body _
    · simp [Covers]
    · exact List.forall_mem_singleton.2 (fromRequest_coded body request)
    · simp [Covers]
  · simp [Covers]

theorem launchedEdits_covers (found : LaunchedLiteral) : site.Covers (site.launchedEdits found) := by
  intro edit planned
  unfold launchedEdits at planned ⊢
  rcases List.mem_append.1 planned with parameter | argument
  · obtain ⟨list, has, rfl⟩ := List.mem_map.1 parameter
    rw [Option.mem_toList] at has
    rw [has]
    exact parameter_coded list
  · refine .of_addArgument? .goroutineHandle ?_ rfl (Option.mem_toList.1 argument)
    simp [Code.render, Code.lines, Piece.line, Piece.render, goroutineHandle, handle]

theorem handlerEdits_covers (found : HandlerLiteral) : site.Covers (site.handlerEdits found) := by
  unfold handlerEdits
  split
  · exact List.forall_mem_singleton.2 (fromRequest_coded _ found.request)
  · simp [Covers]

theorem deferredStatement_covers (builtIn : site.setup.catalog = Catalog.builtIn) {isMain : Bool}
    {state next : HandleEdits × HandleScope} {place : Place} {view : StatementView} {supply supply' : NameSupply}
    (text : view.source = site.source.text) (covers : site.Covers state.1)
    (done : site.deferredStatement isMain state (place, view) supply = (.ok next, supply')) : site.Covers next.1 := by
  rcases deferredStatement_cases builtIn done with ⟨_, rfl⟩ | ⟨_, _, imports, new, edits, code⟩
  · exact covers
  · unfold Covers
    rw [imports, edits]
    refine List.forall_mem_append.2 ⟨covers, fun edit planned => ?_⟩
    rcases code with ⟨_, rfl⟩ | ⟨_, segment, function, rfl⟩
    · cases planned
    · rw [text, List.mem_cons, List.mem_singleton] at planned
      rcases planned with rfl | rfl
      · refine .of_line (.segmentStart segment function) ?_ (.before view.node _) (List.nil_subset _)
        simp [Code.render, Code.lines, Piece.line, Piece.render, handle, String.append_assoc]
      · refine .of_line (.segmentStop segment) ?_ (.after view.node _) (List.nil_subset _)
        simp [Code.render, Code.lines, Piece.line, Piece.render]

theorem deferredEdits_covers (builtIn : site.setup.catalog = Catalog.builtIn) {isMain : Bool} {scope : HandleScope}
    {decl : FunctionDecl} {body : Place} {result : HandleEdits × HandleScope}
    (done : site.deferredEdits isMain scope decl body = .ok result) : site.Covers result.1 := by
  unfold deferredEdits at done
  let holds (state : HandleEdits × HandleScope) : Prop := site.Covers state.1
  have start : holds ({}, scope) := by simp [holds, Covers]
  refine (Naming.foldlM_keeps ?_ start (Prod.ext done rfl) : holds result)
  rintro ⟨place, view⟩ member state supply next supply' covers stepped
  obtain ⟨statements, _, paired⟩ := List.mem_flatMap.1 member
  exact deferredStatement_covers builtIn (mem_viewsOf paired).2.2 covers stepped

theorem literals_covers (parts : List HandleEdits) (each : ∀ part ∈ parts, site.Covers part) :
    site.Covers { edits := parts.flatMap (·.edits), imports := parts.flatMap (·.imports) } := by
  intro edit planned
  obtain ⟨part, listed, inside⟩ := List.mem_flatMap.1 planned
  exact (each part listed edit inside).mono fun path member => List.mem_flatMap.2 ⟨part, listed, member⟩

/-- The parts of a declaration together. -/
theorem parts_covers {calls : List Edit} {deferred : HandleEdits} {scope : HandleScope} (id : Nat)
    (decl : FunctionDecl) (entry : Option Entry) (body : Node)
    (passed : ∀ required, ∀ edit ∈ calls, Coded site.setup.settings site.imports site.source.text required edit)
    (segments : site.Covers deferred) (notes : List Diagnostic) :
    let signature := site.signatureEdits id decl
    let creation := site.creationEdits scope entry body
    let literals := scope.launchedInOrder.map site.launchedEdits ++ scope.handlersInOrder.map site.handlerEdits
    site.Covers {
      edits := signature.edits ++ creation.edits ++ literals.flatMap (·.edits) ++ calls ++ deferred.edits
      imports := signature.imports ++ creation.imports ++ literals.flatMap (·.imports) ++ deferred.imports
      notes } := by
  intro signature creation literals edit planned
  have each : ∀ part ∈ literals, site.Covers part := by
    intro part listed
    rcases List.mem_append.1 listed with launched | handler
    · obtain ⟨literal, _, rfl⟩ := List.mem_map.1 launched
      exact launchedEdits_covers literal
    · obtain ⟨literal, _, rfl⟩ := List.mem_map.1 handler
      exact handlerEdits_covers literal
  dsimp only at planned ⊢
  simp only [List.mem_append] at planned
  rcases planned with (((inSignature | atStart) | inLiteral) | call) | segment
  · refine (signatureEdits_covers id decl edit inSignature).mono ?_
    simp [signature, List.append_assoc]
  · refine (creationEdits_covers scope entry body edit atStart).mono fun path member => ?_
    simp only [List.mem_append]
    exact .inl (.inl (.inr member))
  · refine (literals_covers literals each edit inLiteral).mono fun path member => ?_
    simp only [List.mem_append]
    exact .inl (.inr member)
  · exact passed _ edit call
  · exact (segments edit segment).mono (List.subset_append_right _ _)

theorem declEdits_covers (builtIn : site.setup.catalog = Catalog.builtIn) {withDeferred : Bool} {decl : FunctionDecl}
    {made : HandleEdits} (done : site.declEdits withDeferred decl = .ok made) : site.Covers made := by
  unfold declEdits at done
  split at done
  · rename_i id body known found
    dsimp only at done
    have passed := fun required => site.callEdits_coded (.ofDecl site.program site.package site.imports decl)
      (site.firstScope id) body required
    split at done
    · obtain ⟨result, waited, done⟩ := exists_of_bind_eq_ok done
      cases done
      exact parts_covers id decl _ body.node passed (deferredEdits_covers builtIn waited) _
    · cases done
      exact parts_covers id decl _ body.node passed (by simp [Covers]) _
  · cases done
    simp [Covers]

theorem fileEdits_covers (builtIn : site.setup.catalog = Catalog.builtIn) {withDeferred : Bool} {made : HandleEdits}
    (done : site.fileEdits withDeferred = .ok made) : site.Covers made := by
  unfold fileEdits at done
  obtain ⟨parts, mapped, done⟩ := exists_of_bind_eq_ok done
  cases done
  intro edit planned
  rcases List.mem_append.1 planned with inBody | atFile
  · refine literals_covers parts (fun part listed => ?_) edit inBody
    obtain ⟨decl, _, made⟩ := exists_of_mem_mapM mapped listed
    exact declEdits_covers builtIn made
  · exact fileLevelEdits_coded _ _ _ edit atFile

end HandleSite

/-! Tests and the agent. -/

theorem testCallEdits_coded {graph : CallGraph} {widened : Nat → Bool} {program : Program} {file : ProgramFile}
    (settings : Settings) (imports : Imports) (required : List String) :
    ∀ edit ∈ testCallEdits graph widened program file, Coded settings imports file.source.text required edit := by
  intro edit planned
  rcases List.mem_append.1 planned with inBody | atFile
  · obtain ⟨decl, _, planned⟩ := List.mem_flatMap.1 inBody
    split at planned
    · cases planned
    · obtain ⟨call, _, planned⟩ := List.mem_filterMap.1 planned
      obtain ⟨callee, _, added⟩ := Option.bind_eq_some_iff.1 planned
      exact .of_addArgument? .nothing rfl rfl added
  · exact fileLevelEdits_coded settings imports required edit atFile

theorem Code.render_agent (settings : Settings) (imports : Imports) (failure : String) :
    (Code.agent failure).render settings imports = agentLines settings imports failure := by
  have time : Import.defaultName "time" = "time" := by decide
  unfold agentLines
  cases named : settings.appName <;>
    simp [Code.render, Code.lines, Code.appName, Piece.line, Piece.render, Setup.agentPackage, Imports.callName, time,
      named, String.append_assoc]

theorem bootstrapEdits_coded {settings : Settings} {imports : Imports} {source : Source} {edits : List Edit}
    (done : bootstrapEdits settings imports source = .ok edits) :
    ∀ edit ∈ edits, Coded settings imports source.text [Integration.agentPath, "time"] edit := by
  unfold bootstrapEdits at done
  split at done
  · cases done
    simp
  · split at done
    · cases done
      simp
    · rename_i body _
      split at done
      · split at done
        · cases done
        · rename_i failure _ _
          cases done
          refine List.forall_mem_singleton.2 ⟨.agent failure, ?_, ?_⟩
          · rw [Code.render_agent]
            exact .atStart body.node _
          · cases named : settings.appName <;>
              simp [Code.packages, Code.lines, Code.appName, List.filterMap_cons, Piece.path?, named]
      · cases done
        simp

/-- Whatever a stage writes is code in its place, and the batch lists every package it names. -/
theorem Setup.Plans.coded {setup : Setup} {stage : Stage} {batch : Batch} (plans : setup.Plans stage batch)
    (builtIn : setup.catalog = Catalog.builtIn) {source : Source}
    (found : batch.program.source? batch.file = some source) :
    ∀ edit ∈ batch.edits,
      Coded setup.settings (batch.program.importsOf source) source.text batch.imports edit := by
  cases plans with
  | injections done => exact planInjections_coded builtIn found done
  | @handles site _ _ _ same fits found' done =>
      cases found.symm.trans found'
      rw [← same] at builtIn ⊢
      have covers := HandleSite.fileEdits_covers builtIn done
      unfold HandleSite.Covers at covers
      rwa [fits] at covers
  | testCalls graph widened here =>
      cases found.symm.trans (Program.source?_of_getElem? here)
      exact testCallEdits_coded _ _ _
  | agent found' done =>
      cases found.symm.trans found'
      exact bootstrapEdits_coded done

/-- Code of the user is not lost: what can be seen of a file before a stage is still there after it, in order. -/
theorem Setup.perform_keepsInk (settings : Settings) (detection : Detection) (graph : CallGraph) (stage : Stage)
    (run : Run) :
    run.program.KeepsInk (Setup.perform ⟨Catalog.builtIn, settings, detection⟩ graph stage run).program := by
  obtain ⟨batches, history, each⟩ := Setup.perform_leads ⟨Catalog.builtIn, settings, detection⟩ graph stage run
  refine history.keepsInk fun batch listed source found edit planned => ?_
  obtain ⟨code, placed, _⟩ := (each batch listed).2.coded rfl found edit planned
  exact placed.retains

end TraceWeave
