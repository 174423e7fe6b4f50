import TraceWeave.Proofs.Qualifiers

/-!
Modules that a run requires. New code refers to packages of active integrations, of the agent and of the standard
library. The module that a package is taken from is the longest of the detected ones that provides it, and of the
detected modules those are required that some package is taken from.
-/
namespace TraceWeave

open Go (Node Place)

namespace Detection

variable {modules : List String} {path module : String} {found : Option String}

/-- A module provides the package with its own path, and those below it. -/
def Provides (module path : String) : Prop := path = module ∨ ∃ rest, path = module ++ "/" ++ rest

/-- A module is the longest of those listed that provide a package. -/
structure Longest (modules : List String) (path module : String) : Prop where
  listed : module ∈ modules
  provides : Provides module path
  longest : ∀ other ∈ modules, Provides other path → other = module ∨ Text.size other < Text.size module

theorem provides_iff : provides path module = true ↔ Provides module path := by
  unfold provides Provides Text.beginsWith
  rw [Bool.or_eq_true, beq_iff_eq, List.isPrefixOf_iff_prefix]
  refine or_congr_right ⟨?_, ?_⟩
  · rintro ⟨rest, same⟩
    refine ⟨String.ofList rest, String.toList_inj.1 ?_⟩
    rw [String.toList_append, String.toList_ofList, same]
  · rintro ⟨rest, rfl⟩
    exact ⟨rest.toList, (String.toList_append).symm⟩

/-- The longer of a module and one found before, or the later if they are equally long. -/
def longer (found : Option String) (module : String) : Option String :=
  match found with
  | none => some module
  | some other => if Text.size module < Text.size other then some other else some module

theorem exists_longer (found : Option String) (module : String) : ∃ best, longer found module = some best ∧
    (found = some best ∨ best = module) ∧ Text.size module ≤ Text.size best ∧
      ∀ other, found = some other → Text.size other ≤ Text.size best := by
  cases found with
  | none => exact ⟨module, rfl, .inr rfl, Nat.le_refl _, nofun⟩
  | some other =>
      by_cases less : Text.size module < Text.size other
      · refine ⟨other, if_pos less, .inl rfl, Nat.le_of_lt less, ?_⟩
        rintro _ ⟨⟩
        exact Nat.le_refl _
      · refine ⟨module, if_neg less, .inr rfl, Nat.le_refl _, ?_⟩
        rintro _ ⟨⟩
        exact Nat.not_lt.1 less

theorem foldl_longer (best : modules.foldl longer found = some module) :
    (found = some module ∨ module ∈ modules) ∧ (∀ other ∈ modules, Text.size other ≤ Text.size module) ∧
      ∀ other, found = some other → Text.size other ≤ Text.size module := by
  induction modules generalizing found with
  | nil => exact ⟨.inl best, by simp, fun other same => by cases same.symm.trans best; exact Nat.le_refl _⟩
  | cons first modules ih =>
      obtain ⟨middle, next, origin, bound, bounds⟩ := exists_longer found first
      rw [List.foldl_cons, next] at best
      obtain ⟨here, each, least⟩ := ih best
      have least := least middle rfl
      refine ⟨?_, List.forall_mem_cons.2 ⟨bound.trans least, each⟩, fun other same => (bounds other same).trans least⟩
      rcases here with same | later
      · cases same
        rcases origin with old | rfl
        · exact .inl old
        · exact .inr List.mem_cons_self
      · exact .inr (List.mem_cons_of_mem _ later)

theorem isSome_foldl_longer (known : found.isSome = true ∨ modules ≠ []) :
    (modules.foldl longer found).isSome = true := by
  induction modules generalizing found with
  | nil => exact known.resolve_right (· rfl)
  | cons first modules ih =>
      obtain ⟨middle, next, _⟩ := exists_longer found first
      exact ih (.inl (by rw [next]; rfl))

theorem providing?_eq (modules : List String) (path : String) :
    providing? modules path = (modules.filter (provides path)).foldl longer none := rfl

theorem Provides.eq_slice (provides : Provides module path) : module = Text.slice path 0 (Text.size module) := by
  have split : ∃ rest, path = module ++ rest := by
    rcases provides with rfl | ⟨rest, rfl⟩
    · exact ⟨"", String.append_empty.symm⟩
    · exact ⟨"/" ++ rest, String.append_assoc⟩
  obtain ⟨rest, rfl⟩ := split
  have first : Text.Cut (module ++ rest) 0 [] (module.toList ++ rest.toList) := ⟨String.toList_append, rfl⟩
  have last : Text.Cut (module ++ rest) (Text.size module) ([] ++ module.toList) rest.toList :=
    ⟨String.toList_append, (Text.size_eq module).symm⟩
  rw [first.slice_eq last, String.ofList_toList]

/-- The module that a package is taken from is the longest that provides it. -/
theorem of_providing? (taken : providing? modules path = some module) : Longest modules path module := by
  rw [providing?_eq] at taken
  obtain ⟨origin, longest, _⟩ := foldl_longer taken
  obtain ⟨listed, provided⟩ := List.mem_filter.1 (origin.resolve_left nofun)
  refine ⟨listed, provides_iff.1 provided, fun other member provides => ?_⟩
  rcases Nat.lt_or_eq_of_le (longest other (List.mem_filter.2 ⟨member, provides_iff.2 provides⟩)) with less | same
  · exact .inr less
  · -- both start the path and are equally long
    rw [provides.eq_slice, same, ← (provides_iff.1 provided).eq_slice]
    exact .inl rfl

/-- A package that some module provides is taken from one. -/
theorem exists_providing? (listed : module ∈ modules) (provided : provides path module = true) :
    ∃ found, providing? modules path = some found := by
  have filled : modules.filter (provides path) ≠ [] := List.ne_nil_of_mem (List.mem_filter.2 ⟨listed, provided⟩)
  exact Option.isSome_iff_exists.1 (isSome_foldl_longer (.inr filled))

end Detection

/-! Packages that new code refers to. -/

/-- Packages that new code can refer to: that of the agent, the one its shutdown takes the time from, and what the
code of active integrations names. -/
inductive Setup.Refers (setup : Setup) : String → Prop where
  | agent : Refers setup Integration.agentPath
  | time : Refers setup "time"
  | library {integration : Integration} {view : StatementView} {injection : Injection} {supply next : NameSupply}
      {path : String} (active : integration ∈ setup.active)
      (generated : integration.generate view setup.names supply = (.ok injection, next))
      (named : path ∈ injection.imports) : Refers setup path

namespace Setup

variable {setup : Setup} {site : InjectionSite} {plan result : FilePlan} {view : StatementView}
  {supply supply' : NameSupply} {next : FilePlan × List Binding} {bindings : List Binding} {imports : Imports}

/-- New code refers to all of the packages. -/
def Backs (setup : Setup) (paths : List String) : Prop := ∀ path ∈ paths, setup.Refers path

theorem Backs.append {paths more : List String} (backs : setup.Backs paths) (backs' : setup.Backs more) :
    setup.Backs (paths ++ more) :=
  List.forall_mem_append.2 ⟨backs, backs'⟩

theorem backs_nil (setup : Setup) : setup.Backs [] := by simp [Backs]

theorem backs_agent (setup : Setup) : setup.Backs [Integration.agentPath] := List.forall_mem_singleton.2 .agent

theorem injectInto_backs (backs : setup.Backs plan.imports)
    (done : setup.injectInto site plan bindings view supply = (.ok next, supply')) : setup.Backs next.1.imports := by
  unfold injectInto at done
  cases found : setup.integrationFor? site.isMain view with
  | none =>
      rw [found] at done
      cases Naming.pure_eq_ok done
      exact backs
  | some integration =>
      rw [found] at done
      dsimp only at done
      split at done
      · cases Naming.pure_eq_ok done
        unfold FilePlan.addSeed
        split
        · exact backs
        · exact backs
      · split at done
        · cases Naming.pure_eq_ok done
          exact backs
        · obtain ⟨injection, middle, generated, done⟩ := Naming.bind_eq_ok done
          have active : integration ∈ setup.active := List.mem_of_find?_eq_some found
          split at done
          · cases Naming.pure_eq_ok done
            exact backs
          · cases Naming.pure_eq_ok done
            exact backs.append fun path named => .library active generated named

theorem injectSequence_backs {statements : List Node} (backs : setup.Backs plan.imports)
    (done : setup.injectSequence site imports plan statements supply = (.ok result, supply')) :
    setup.Backs result.imports := by
  unfold injectSequence at done
  obtain ⟨state, middle, walked, done⟩ := Naming.bind_eq_ok done
  cases Naming.pure_eq_ok done
  let holds (state : FilePlan × List Binding) : Prop := setup.Backs state.1.imports
  have start : holds (plan, []) := backs
  refine (Naming.foldlM_keeps (fun view _ state supply next supply' backs stepped => ?_) start walked : holds state)
  have carried : ∀ edits, setup.Backs (state.1.addCarried edits).imports := fun _ => backs
  exact injectInto_backs (carried _) stepped

theorem planInjections_backs {program : Program} {file : Nat} (done : setup.planInjections program file = .ok plan) :
    setup.Backs plan.imports := by
  let holds (plan : FilePlan) : Prop := setup.Backs plan.imports
  have start : holds {} := setup.backs_nil
  unfold planInjections at done
  split at done
  · refine (keeps_of_foldlM (fun decl _ state next backs stepped => ?_) start done : holds plan)
    unfold injectDecl at stepped
    split at stepped
    · cases stepped
      exact backs
    · dsimp only at stepped
      unfold injectBody at stepped
      exact (Naming.foldlM_keeps (fun statements _ state supply next supply' backs stepped =>
        injectSequence_backs backs stepped) backs (Prod.ext stepped rfl) : holds next)
  · cases done
    exact start

end Setup

namespace HandleSite

variable {site : HandleSite} {supply supply' : NameSupply} {made : HandleEdits}

theorem signatureEdits_backs (site : HandleSite) (id : Nat) (decl : FunctionDecl) :
    site.setup.Backs (site.signatureEdits id decl).imports := by
  unfold signatureEdits
  split
  · split
    · exact site.setup.backs_agent
    · exact site.setup.backs_nil
  · exact site.setup.backs_nil

theorem creationEdits_backs (scope : HandleScope) (entry : Option Entry) (body : Node) :
    site.setup.Backs (site.creationEdits scope entry body).imports := by
  have each : site.setup.Backs (site.creation entry).2 := by
    rcases entry with _ | _ | (_ | request) | _
    · exact site.setup.backs_nil
    · exact site.setup.backs_nil
    · exact site.setup.backs_nil
    · exact site.setup.backs_agent
    · exact site.setup.backs_nil
  unfold creationEdits
  split
  · dsimp only
    split
    · exact each
    · exact each
  · exact site.setup.backs_nil

theorem launchedEdits_backs (found : LaunchedLiteral) : site.setup.Backs (site.launchedEdits found).imports := by
  unfold launchedEdits
  dsimp only
  split
  · exact site.setup.backs_nil
  · exact site.setup.backs_agent

theorem handlerEdits_backs (found : HandlerLiteral) : site.setup.Backs (site.handlerEdits found).imports := by
  unfold handlerEdits
  split
  · exact site.setup.backs_agent
  · exact site.setup.backs_nil

theorem deferredStatement_backs {isMain : Bool} {state next : HandleEdits × HandleScope} {place : Place}
    {view : StatementView} (backs : site.setup.Backs state.1.imports)
    (done : site.deferredStatement isMain state (place, view) supply = (.ok next, supply')) :
    site.setup.Backs next.1.imports := by
  unfold deferredStatement at done
  dsimp only at done
  cases found : site.deferredFor? isMain view with
  | none =>
      rw [found] at done
      cases Naming.pure_eq_ok done
      exact backs
  | some integration =>
      rw [found] at done
      have active : integration ∈ site.setup.active := List.mem_of_find?_eq_some found
      dsimp only at done
      split at done
      · cases Naming.pure_eq_ok done
        exact backs
      · split at done
        · obtain ⟨injection, middle, generated, done⟩ := Naming.bind_eq_ok done
          cases Naming.pure_eq_ok done
          exact backs.append fun path named => .library active generated named
        · cases Naming.pure_eq_ok done
          exact backs

theorem deferredEdits_backs {isMain : Bool} {scope : HandleScope} {decl : FunctionDecl} {body : Place}
    {result : HandleEdits × HandleScope} (done : site.deferredEdits isMain scope decl body = .ok result) :
    site.setup.Backs result.1.imports := by
  unfold deferredEdits at done
  let holds (state : HandleEdits × HandleScope) : Prop := site.setup.Backs state.1.imports
  have start : holds ({}, scope) := site.setup.backs_nil
  exact (Naming.foldlM_keeps (fun _ _ _ _ _ _ backs stepped => deferredStatement_backs backs stepped) start
    (Prod.ext done rfl) : holds result)

theorem declEdits_backs {withDeferred : Bool} {decl : FunctionDecl} (done : site.declEdits withDeferred decl = .ok made) :
    site.setup.Backs made.imports := by
  have literals : ∀ scope : HandleScope, site.setup.Backs
      ((scope.launchedInOrder.map site.launchedEdits ++ scope.handlersInOrder.map site.handlerEdits).flatMap
        (·.imports)) := by
    intro scope path listed
    obtain ⟨part, member, named⟩ := List.mem_flatMap.1 listed
    rcases List.mem_append.1 member with launched | handler
    · obtain ⟨literal, _, rfl⟩ := List.mem_map.1 launched
      exact launchedEdits_backs literal path named
    · obtain ⟨literal, _, rfl⟩ := List.mem_map.1 handler
      exact handlerEdits_backs literal path named
  have parts := fun id entry body scope => ((site.signatureEdits_backs id decl).append
    (creationEdits_backs scope entry body)).append (literals scope)
  unfold declEdits at done
  split at done
  · dsimp only at done
    split at done
    · obtain ⟨result, waited, done⟩ := exists_of_bind_eq_ok done
      cases done
      exact (parts _ _ _ _).append (deferredEdits_backs waited)
    · cases done
      exact (parts _ _ _ _).append site.setup.backs_nil
  · cases done
    exact site.setup.backs_nil

theorem fileEdits_backs {withDeferred : Bool} (done : site.fileEdits withDeferred = .ok made) :
    site.setup.Backs made.imports := by
  unfold fileEdits at done
  obtain ⟨parts, mapped, done⟩ := exists_of_bind_eq_ok done
  cases done
  intro path listed
  obtain ⟨part, member, named⟩ := List.mem_flatMap.1 listed
  obtain ⟨decl, _, made⟩ := exists_of_mem_mapM mapped member
  exact declEdits_backs made path named

end HandleSite

namespace Setup

variable {setup : Setup} {stage : Stage} {batch : Batch} {path : String}

/-- Whatever a stage puts on record, new code can refer to it. -/
theorem Plans.backs (plans : setup.Plans stage batch) : setup.Backs batch.imports := by
  cases plans with
  | injections done => exact planInjections_backs done
  | handles same _ _ done => exact same ▸ HandleSite.fileEdits_backs done
  | testCalls graph widened here => exact setup.backs_nil
  | agent found done => exact setup.backs_agent.append (List.forall_mem_singleton.2 .time)

/-! Modules of the built-in integrations. -/

/-- The packages that the code of a built-in integration names are taken from the module it requires. -/
theorem generate_provided {integration : Integration} (builtIn : integration ∈ Catalog.builtIn) {view : StatementView}
    {injection : Injection} {supply next : NameSupply}
    (generated : integration.generate view setup.names supply = (.ok injection, next)) :
    ∀ path ∈ injection.imports, Detection.provides path integration.requiredModule = true := by
  simp only [Catalog.builtIn, List.mem_cons, List.not_mem_nil, or_false] at builtIn
  rcases builtIn with rfl | rfl | rfl | rfl
  · obtain ⟨wrapped, middle, _, done⟩ := Naming.bind_eq_ok generated
    cases Naming.pure_eq_ok done
    exact List.forall_mem_singleton.2 (Detection.provides_iff.2 (.inl rfl))
  · cases Naming.pure_eq_ok generated
    exact List.forall_mem_singleton.2 (Detection.provides_iff.2 (.inl rfl))
  · rcases generateServer_cases view with nothing | ⟨call, function, wrapper, first, last, _, _, made⟩
    · cases (nothing setup.names supply).symm.trans generated
      simp
    · cases (made setup.names supply).symm.trans generated
      exact List.forall_mem_singleton.2 (by decide +kernel)
  · change Http.generateClient view setup.names supply = _ at generated
    unfold Http.generateClient at generated
    cases asked : Http.request? view with
    | none =>
        rw [asked] at generated
        cases Naming.pure_eq_ok generated
        simp
    | some function =>
        rw [asked] at generated
        obtain ⟨name, middle, _, done⟩ := Naming.bind_eq_ok generated
        cases Naming.pure_eq_ok done
        simp

variable {program : Program} {settings : Settings}

theorem mem_modules_of_active {integration : Integration} {catalog : Catalog}
    (active : integration ∈ (ofProgram program catalog settings).active) :
    Integration.agentModule ∈ (ofProgram program catalog settings).detection.modules ∧
      integration.requiredModule ∈ (ofProgram program catalog settings).detection.modules := by
  obtain ⟨index, chosen, found⟩ := List.mem_filterMap.1 active
  change index ∈ catalog.activeFor program.importPaths at chosen
  change catalog[index]? = some integration at found
  have filled : (catalog.activeFor program.importPaths).isEmpty = false := by
    simpa using List.ne_nil_of_mem chosen
  have needed : integration.requiredModule ∈ (catalog.activeFor program.importPaths).filterMap
      fun index => (catalog[index]?).map (·.requiredModule) :=
    List.mem_filterMap.2 ⟨index, chosen, by rw [found, Option.map_some]⟩
  unfold ofProgram Detection.ofProgram
  dsimp only
  rw [filled, if_neg Bool.false_ne_true, mem_sortedSet, mem_sortedSet]
  exact ⟨List.mem_cons_self, List.mem_cons_of_mem _ needed⟩

/-- Some detected module provides each package but that of the standard library. -/
theorem exists_provider (active : (ofProgram program Catalog.builtIn settings).active ≠ [])
    (refers : (ofProgram program Catalog.builtIn settings).Refers path) (foreign : path ≠ "time") :
    ∃ module ∈ (ofProgram program Catalog.builtIn settings).detection.modules,
      Detection.provides path module = true := by
  cases refers with
  | agent =>
      obtain ⟨integration, listed⟩ := List.exists_mem_of_ne_nil _ active
      exact ⟨_, (mem_modules_of_active listed).1, by decide +kernel⟩
  | time => exact absurd rfl foreign
  | @library integration _ _ _ _ _ listed generated named =>
      obtain ⟨index, _, found⟩ := List.mem_filterMap.1 listed
      have builtIn : integration ∈ Catalog.builtIn := List.mem_of_getElem? found
      exact ⟨_, (mem_modules_of_active listed).2, generate_provided builtIn generated path named⟩

theorem finish_imports (setup : Setup) (run : Run) : (setup.finish run).imports = (setup.bootstrap run).imports :=
  Run.foldl_addImportsTo_imports _ _

/-- Whatever is on record after any stages is a package that new code can refer to. -/
theorem finish_backs (setup : Setup) (graph : CallGraph) (stages : List Stage) {start : Run} (bare : start.imports = [])
    {file : Nat}
    (listed : (file, path) ∈
      (setup.finish (stages.foldl (fun run stage => setup.perform graph stage run) start)).imports) :
    setup.Refers path := by
  have last : setup.bootstrap (stages.foldl (fun run stage => setup.perform graph stage run) start) =
      (stages ++ [Stage.bootstrap]).foldl (fun run stage => setup.perform graph stage run) start := by
    rw [List.foldl_append]
    rfl
  rw [finish_imports, last] at listed
  obtain ⟨batches, history, each⟩ := setup.foldl_perform_leads graph (stages ++ [.bootstrap]) start
  rcases history.of_mem_imports listed with old | ⟨batch, member, _, recorded⟩
  · rw [bare] at old
    cases old
  · obtain ⟨stage, plans⟩ := each batch member
    exact plans.backs path recorded

/-- A file that imports a supported library. -/
def libraryUser : String := "package main\nimport \"net/http\"\n"

end Setup
end TraceWeave
