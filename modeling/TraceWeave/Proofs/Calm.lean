import TraceWeave.Proofs.HandleEdits
import TraceWeave.Proofs.InjectRest

/-!
What the passes have to say about a program. Names that are used elsewhere, functions that cannot take
the handle and places without one are noted on the way; that edits do not fit together is noted only
where they are carried out.
-/
namespace TraceWeave

open Go (Node Place)

/-- Findings without a word about edits that do not fit together. -/
def Calm (notes : List Diagnostic) : Prop := ∀ note ∈ notes, note.kind ≠ .editConflict

variable {notes notes' : List Diagnostic}

theorem calm_nil : Calm [] := by simp [Calm]

theorem calm_single {note : Diagnostic} (other : note.kind ≠ .editConflict) : Calm [note] := by
  simpa [Calm] using other

theorem Calm.append (first : Calm notes) (second : Calm notes') : Calm (notes ++ notes') := by
  intro note member
  rcases List.mem_append.1 member with here | later
  · exact first note here
  · exact second note later

theorem Calm.flatMap {α : Type} {items : List α} {say : α → List Diagnostic} (each : ∀ item ∈ items, Calm (say item)) :
    Calm (items.flatMap say) := by
  intro note member
  obtain ⟨item, listed, inside⟩ := List.mem_flatMap.1 member
  exact each item listed note inside

theorem Detection.calm_notes (detection : Detection) : Calm detection.notes := by
  unfold notes
  split
  · exact calm_single (by simp [Diagnostic.general])
  · exact calm_nil

/-! The first pass. -/

namespace Setup

variable {setup : Setup} {site : InjectionSite} {plan result : FilePlan} {supply supply' : NameSupply}

theorem calm_carryOver (path source : String) (line : Nat) (statement : Node) (binding : Binding) :
    Calm (binding.carryOver path source line statement).2 := by
  unfold Binding.carryOver
  split
  · exact calm_nil
  · exact calm_nil
  · exact calm_single (by simp [Diagnostic.onLine])

theorem injectStatement_calm (builtIn : setup.catalog = Catalog.builtIn) {state next : FilePlan × List Binding}
    {view : StatementView} (calm : Calm state.1.notes)
    (done : setup.injectStatement site state view supply = (.ok next, supply')) : Calm next.1.notes := by
  have carried : Calm (state.1.addCarried
      (state.2.map (Binding.carryOver site.source.path view.source (site.source.nodeLine view.node) view.node))).notes := by
    refine calm.append (Calm.flatMap fun part listed => ?_)
    obtain ⟨binding, _, rfl⟩ := List.mem_map.1 listed
    exact calm_carryOver _ _ _ _ binding
  rcases injectInto_cases builtIn done with ⟨_, ⟨_, _, same⟩, _⟩ | ⟨_, _, _, _, _, _, _, _, rfl⟩
  · rw [same]
    exact carried
  · exact carried

theorem injectSequence_calm (builtIn : setup.catalog = Catalog.builtIn) {imports : Imports} {statements : List Node}
    (calm : Calm plan.notes)
    (done : setup.injectSequence site imports plan statements supply = (.ok result, supply')) : Calm result.notes := by
  unfold injectSequence at done
  obtain ⟨next, middle, walked, ended⟩ := Naming.bind_eq_ok done
  cases Naming.pure_eq_ok ended
  have keeps : ∀ view ∈ StatementView.ofSequence site.source.text imports statements,
      ∀ (state : FilePlan × List Binding) supply next supply', Calm state.1.notes →
      setup.injectStatement site state view supply = (.ok next, supply') → Calm next.1.notes :=
    fun view _ state supply next supply' calm stepped => injectStatement_calm builtIn calm stepped
  exact (Naming.foldlM_keeps keeps calm walked :)

theorem injectDecl_calm (builtIn : setup.catalog = Catalog.builtIn) {source : Source} {package : Nat}
    {packageName : String} {imports : Imports} {decl : FunctionDecl} (calm : Calm plan.notes)
    (done : setup.injectDecl source package packageName imports plan decl = .ok result) : Calm result.notes := by
  unfold injectDecl at done
  split at done
  · cases done
    exact calm
  · rename_i body found
    dsimp only at done
    unfold injectBody at done
    have keeps : ∀ statements ∈ body.sequences.map fun places => places.map (·.node),
        ∀ (plan : FilePlan) supply next supply', Calm plan.notes →
        setup.injectSequence ⟨source, decl.key package, decl.isMain packageName⟩ imports plan statements supply =
          (.ok next, supply') → Calm next.notes :=
      fun statements _ plan supply next supply' calm stepped => injectSequence_calm builtIn calm stepped
    exact (Naming.foldlM_keeps keeps calm (Prod.ext done rfl) :)

theorem planInjections_calm (builtIn : setup.catalog = Catalog.builtIn) {program : Program} {file : Nat}
    (done : setup.planInjections program file = .ok plan) : Calm plan.notes := by
  unfold planInjections at done
  split at done
  · rename_i entry package here known
    have keeps : ∀ decl ∈ FunctionDecl.all entry.source, ∀ (before after : FilePlan), Calm before.notes →
        setup.injectDecl entry.source entry.package package.name (program.importsOf entry.source) before decl =
          .ok after → Calm after.notes :=
      fun decl _ before after calm stepped => injectDecl_calm builtIn calm stepped
    exact (keeps_of_foldlM keeps calm_nil done :)
  · cases done
    exact calm_nil

end Setup

/-! The plan for the handle. -/

namespace HandlePlan

variable {graph : CallGraph} {reachable : List Nat} {plan : HandlePlan}

theorem calm_note {kind : DiagnosticKind} (calm : Calm plan.notes) (other : kind ≠ .editConflict)
    (function : GraphFunction) (message : String) : Calm (plan.note function kind message).notes :=
  calm.append (calm_single other)

theorem calm_addSeed (calm : Calm plan.notes) (key : FunctionKey) :
    Calm (addSeed graph reachable plan key).notes := by
  unfold addSeed
  split
  · exact calm
  · split
    · exact calm
    · split
      · exact calm
      · split
        · exact calm_note calm (by simp) _ _
        · split
          · exact calm_note calm (by simp) _ _
          · exact calm

theorem calm_addCaller (calm : Calm plan.notes) (callee : GraphFunction) (id : Nat) :
    Calm (addCaller graph reachable callee plan id).notes := by
  unfold addCaller
  split
  · exact calm
  · split
    · exact calm
    · split
      · exact calm_note (show Calm (plan.setState id .settled).notes from calm) (by simp) _ _
      · exact calm

theorem calm_foldl {α : Type} {step : HandlePlan → α → HandlePlan}
    (each : ∀ plan item, Calm plan.notes → Calm (step plan item).notes) (items : List α) (calm : Calm plan.notes) :
    Calm (items.foldl step plan).notes := by
  induction items generalizing plan with
  | nil => exact calm
  | cons item items ih => exact ih (each plan item calm)

theorem calm_settle (calm : Calm plan.notes) (id : Nat) (function : GraphFunction) :
    Calm (settle graph reachable plan id function).notes := by
  unfold settle
  split
  · exact calm
  · split
    · exact calm
    · exact calm_note calm (by simp) _ _
  · exact calm
  · refine calm_foldl (fun plan id calm => calm_addCaller calm function id) _ ?_
    split
    · exact calm
    · exact calm

theorem calm_walk (calm : Calm plan.notes) (rounds : Nat) : Calm (walk graph reachable rounds plan).notes := by
  induction rounds generalizing plan with
  | zero => exact calm
  | succ rounds ih =>
      unfold walk
      split
      · exact calm
      · rename_i id queue _
        have taken : Calm (HandlePlan.notes { plan.setState id .required with queue }) := calm
        apply ih
        dsimp only [setState]
        split
        · exact calm_settle taken _ _
        · exact calm

theorem calm_compute (graph : CallGraph) (seeds : List FunctionKey) : Calm (compute graph seeds).notes := by
  unfold compute
  exact calm_walk (calm_foldl (fun plan key calm => calm_addSeed calm key) seeds calm_nil) _

end HandlePlan

/-! The second pass. -/

namespace HandleScope

variable {scope : HandleScope}

theorem consult_calm {around : List Node} (calm : Calm scope.notes) : Calm (scope.consult around).2.notes := by
  fun_induction consult scope around with
  | case1 => exact calm
  | case2 => exact calm
  | case3 => exact calm
  | case4 => exact calm
  | case5 => exact calm.append (calm_single (by simp [Diagnostic.onLine]))
  | case6 => exact calm
  | case7 node around apart is _ launch index kind answer scope' consulted scope'' ih =>
      rw [consulted] at ih
      cases answer with
      | true => exact ih
      | false => exact ih
  | case8 node around apart is _ kind answer scope' consulted ih =>
      rw [consulted] at ih
      exact ih
  | case9 node around apart is ih => exact ih

end HandleScope

namespace HandleSite

variable {site : HandleSite} {scope : HandleScope} {decl : FunctionDecl} {made : HandleEdits} {withDeferred : Bool}

theorem callEdit_calm (here : Surroundings) (call : Place) {state : List Edit × HandleScope}
    (calm : Calm state.2.notes) : Calm (site.callEdit here state call).2.notes := by
  unfold callEdit
  split
  · exact calm
  · exact HandleScope.consult_calm calm

theorem callEdits_calm (here : Surroundings) (body : Place) (calm : Calm scope.notes) :
    Calm (site.callEdits here scope body).2.notes := by
  have run : ∀ (calls : List Place) (state : List Edit × HandleScope), Calm state.2.notes →
      Calm (calls.foldl (site.callEdit here) state).2.notes := by
    intro calls
    induction calls with
    | nil => exact fun state calm => calm
    | cons call calls ih => exact fun state calm => ih _ (callEdit_calm here call calm)
  exact run _ _ calm

theorem deferredStatement_calm {isMain : Bool} {state next : HandleEdits × HandleScope} {found : Place × StatementView}
    {supply supply' : NameSupply} (calm : Calm (state.1.notes ++ state.2.notes))
    (done : site.deferredStatement isMain state found supply = (.ok next, supply')) :
    Calm (next.1.notes ++ next.2.notes) := by
  have before : Calm state.1.notes := fun note member => calm note (List.mem_append_left _ member)
  have after : Calm state.2.notes := fun note member => calm note (List.mem_append_right _ member)
  unfold deferredStatement at done
  dsimp only at done
  cases waits : site.deferredFor? isMain found.2 with
  | none =>
      rw [waits] at done
      cases Naming.pure_eq_ok done
      exact calm
  | some integration =>
      rw [waits] at done
      dsimp only at done
      by_cases ready : integration.isDone found.2 = true
      · rw [if_pos ready] at done
        cases Naming.pure_eq_ok done
        exact calm
      · rw [if_neg ready] at done
        have answered : Calm (state.2.availableAt found.1).2.notes := HandleScope.consult_calm after
        by_cases available : (state.2.availableAt found.1).1 = true
        · rw [if_pos available] at done
          obtain ⟨injection, middle, _, done⟩ := Naming.bind_eq_ok done
          cases Naming.pure_eq_ok done
          exact before.append answered
        · rw [if_neg available] at done
          cases Naming.pure_eq_ok done
          exact (before.append (calm_single (by simp [Diagnostic.onLine]))).append answered

theorem deferredEdits_calm {isMain : Bool} {body : Place} {result : HandleEdits × HandleScope} (calm : Calm scope.notes)
    (done : site.deferredEdits isMain scope decl body = .ok result) : Calm (result.1.notes ++ result.2.notes) := by
  unfold deferredEdits at done
  have keeps : ∀ found ∈ body.sequences.flatMap site.viewsOf, ∀ (state : HandleEdits × HandleScope) supply next supply',
      Calm (state.1.notes ++ state.2.notes) → site.deferredStatement isMain state found supply = (.ok next, supply') →
      Calm (next.1.notes ++ next.2.notes) :=
    fun found _ state supply next supply' calm stepped => deferredStatement_calm calm stepped
  have start : Calm ((({}, scope) : HandleEdits × HandleScope).1.notes ++ scope.notes) := calm_nil.append calm
  exact (Naming.foldlM_keeps keeps start (Prod.ext done rfl) :)

theorem declEdits_calm (done : site.declEdits withDeferred decl = .ok made) : Calm made.notes := by
  unfold declEdits at done
  split at done
  · rename_i id body known found
    dsimp only at done
    have calls : Calm (site.callEdits (.ofDecl site.program site.package site.imports decl) (site.firstScope id)
      body).2.notes := callEdits_calm _ body calm_nil
    split at done
    · obtain ⟨result, deferred, done⟩ := exists_of_bind_eq_ok done
      cases done
      exact deferredEdits_calm calls deferred
    · cases done
      exact calls
  · cases done
    exact calm_nil

theorem fileEdits_calm (done : site.fileEdits withDeferred = .ok made) : Calm made.notes := by
  unfold fileEdits at done
  obtain ⟨parts, mapped, done⟩ := exists_of_bind_eq_ok done
  cases done
  refine Calm.flatMap fun part listed => ?_
  obtain ⟨decl, _, made⟩ := exists_of_mem_mapM mapped listed
  exact declEdits_calm made

end HandleSite
end TraceWeave
