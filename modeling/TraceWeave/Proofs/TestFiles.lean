import TraceWeave.Proofs.Acceptance
import TraceWeave.Proofs.History

/-!
Test files. They are adapted to functions that took the handle and are not touched otherwise: no stage but
one looks at them, that stage only adds arguments, and no import is ever on record for them.
-/
namespace TraceWeave

open Go (Place)

namespace Setup

variable {setup : Setup} {graph : CallGraph} {run : Run} {file : Nat} {source : Source}

/-- A stage leaves a file alone that it does not go through. -/
theorem perform_spares (setup : Setup) (graph : CallGraph) (stage : Stage) (apart : file ∉ stage.files run) :
    (setup.perform graph stage run).program.source? file = run.program.source? file := by
  obtain ⟨batches, history, each⟩ := setup.perform_leads graph stage run
  apply history.evolves.source?_of_untouched
  rintro ⟨batch, listed, rfl⟩
  exact apart (each batch listed).1

theorem not_mem_productionFiles (found : run.program.source? file = some source) (test : source.isTest = true) :
    file ∉ run.productionFiles := by
  intro listed
  have production := (Run.mem_filesWhere found).1 listed
  simp [test] at production

/-- No stage puts an import on record for a test file. -/
theorem perform_imports (setup : Setup) (graph : CallGraph) (stage : Stage)
    (found : run.program.source? file = some source) (test : source.isTest = true)
    (none : ∀ path, (file, path) ∉ run.imports) :
    ∀ path, (file, path) ∉ (setup.perform graph stage run).imports := by
  obtain ⟨batches, history, each⟩ := setup.perform_leads graph stage run
  intro path recorded
  rcases history.of_mem_imports recorded with old | ⟨batch, listed, rfl, member⟩
  · exact none path old
  · obtain ⟨inside, plans⟩ := each batch listed
    cases plans with
    | injections _ => exact not_mem_productionFiles found test inside
    | handles _ _ _ _ => exact not_mem_productionFiles found test inside
    | testCalls _ _ _ => cases member
    | agent _ _ => exact not_mem_productionFiles found test inside

end Setup

/-- A test file before and after a run, where `view` is how its calls are looked at and `passed` are the
calls that get `nil`. -/
structure Patched (graph : CallGraph) (plan : HandlePlan) (stage : Program) (woven : Run) (file : Nat)
    (before : Source) (view : CallView) (passed : List Passed) (after : Source) : Prop where
  graph : view.graph = graph
  widened : view.widened = plan.widens
  /-- The file is looked at as it was loaded, when at most other files have changed in the stage for tests. -/
  here : view.program.files[file]? = some view.file
  loaded : view.source = before
  meanwhile : Program.Evolves (· ≠ file) stage view.program
  /-- Calls that name a function which took the handle, each once, and no others. -/
  once : (passed.map Passed.call).Nodup
  named : ∀ call callee, (∃ one ∈ passed, one.target = (call, callee)) ↔ ∃ owner, view.Names owner call callee
  argument : ∀ one ∈ passed, one.argument = "nil"
  /-- The argument goes where the parameter went, or last if there are fewer arguments. -/
  joins : ∀ one ∈ passed, one.edit.Joins one.list (min one.callee.handleIndex one.list.parts.length) "nil"
  placed : ∀ one ∈ passed, (one.edit.Joins one.list one.callee.handleIndex "nil" ↔
    one.callee.handleIndex ≤ one.call.node.callArguments.length)
  /-- These arguments are all that is new. -/
  found : woven.program.source? file = some after
  text : Edit.perform before.text (passed.map Passed.edit) = .ok after.text
  kept : before.text.toList.Sublist after.text.toList
  imports : ∀ path, (file, path) ∉ woven.imports

/-- Test files are only patched, whatever the catalog and the settings are. -/
theorem weave_patchesTests {program : Program} (parsed : program.IsParsed) (setup : Setup) (graph : CallGraph)
    {file : Nat} {before : Source} (found : program.source? file = some before) (test : before.isTest = true) :
    let propagated := setup.propagate graph (setup.inject (Run.ofProgram program setup))
    ∃ view passed after, Patched graph propagated.1 propagated.2.program
      (setup.weave graph (Run.ofProgram program setup)) file before view passed after := by
  intro propagated
  have formed : before.IsParsed := by
    obtain ⟨entry, here, rfl⟩ := Option.map_eq_some_iff.1 found
    exact parsed entry (List.mem_of_getElem? here)
  -- the first two passes are about production files
  have found₀ : (Run.ofProgram program setup).program.source? file = some before := found
  have none₀ : ∀ path, (file, path) ∉ (Run.ofProgram program setup).imports := fun _ => List.not_mem_nil
  have found₁ : (setup.inject (Run.ofProgram program setup)).program.source? file = some before :=
    (setup.perform_spares graph .inject (Setup.not_mem_productionFiles found₀ test)).trans found₀
  have none₁ := setup.perform_imports graph .inject found₀ test none₀
  have found₂ : propagated.2.program.source? file = some before :=
    (setup.perform_spares graph .propagate (Setup.not_mem_productionFiles found₁ test)).trans found₁
  have none₂ := setup.perform_imports graph .propagate found₁ test none₁
  -- the turn of the file
  obtain ⟨entry, here, same⟩ := Option.map_eq_some_iff.1 found₂
  subst same
  obtain ⟨middle, meanwhile, here', batch⟩ := Setup.resolveTests_batch graph here test
  let view : CallView := ⟨graph, propagated.1.widens, middle.program, entry⟩
  obtain ⟨passed, edits, handed, argument⟩ := testCallEdits_handed (show view.source.IsParsed from formed) ""
  have agree : ∀ id < graph.size, propagated.2.widened.contains id = propagated.1.widens id :=
    setup.propagate_widened graph _
  rw [testCallEdits_congr agree] at batch
  obtain ⟨after, applied⟩ : ∃ after, entry.source.apply
      (testCallEdits graph propagated.1.widens middle.program entry) = .ok after := testCallEdits_accepted formed
  have found₃ : (Setup.resolveTests graph propagated.2).program.source? file = some after := by
    rw [batch, Source.applied, applied]
  have test₃ : after.isTest = true := (Run.isTest_stays _ _ (Source.apply_evolves applied).path).trans test
  have none₃ := setup.perform_imports graph .resolveTests found₂ test none₂
  -- the agent and imports
  have found₄ := (setup.perform_spares graph .bootstrap
    (Setup.not_mem_productionFiles found₃ test₃)).trans found₃
  have none₄ := setup.perform_imports graph .bootstrap found₃ test₃ none₃
  obtain ⟨final, imports⟩ := Run.addImports_spares none₄
  have performed := Source.perform_of_apply applied
  rw [show testCallEdits graph propagated.1.widens middle.program entry = _ from edits] at performed
  refine ⟨view, passed, after, rfl, rfl, here', rfl, meanwhile, handed.once, ?_, argument, ?_, ?_,
    final.trans found₄, performed, ?_, fun path => imports ▸ none₄ path⟩
  · intro call callee
    constructor
    · rintro ⟨one, listed, ⟨⟩⟩
      exact handed.named one listed
    · rintro ⟨owner, names⟩
      exact (handed.received owner call callee names).2 fun _ _ => rfl
  · intro one listed
    exact argument one listed ▸ handed.joins one listed
  · intro one listed
    exact argument one listed ▸ handed.placed one listed
  · have each : ∀ edit ∈ passed.map Passed.edit, edit.Retains (fun _ => true) entry.source.text := by
      intro edit listed
      obtain ⟨one, _, rfl⟩ := List.mem_map.1 listed
      exact Edit.retains_of_point (Edit.point_addToArguments _ _ _)
    have kept := Edit.perform_retains each performed
    rwa [List.filter_true, List.filter_true] at kept

/-- A test calls `fetch`, which makes a request, in a variable and twice in its body. -/
def testedRequest : Program where
  modulePath := none
  packages := [⟨".", "main", ".", false⟩]
  files := [
    ⟨Source.load "main.go" ("package main\n\nimport \"net/http\"\n\nfunc main() \x7b\n\tfetch(1)\n\x7d\n\n" ++
      "func fetch(tries int) int \x7b\n\thttp.Get(\"x\")\n\treturn tries\n\x7d\n"), 0⟩,
    ⟨Source.load "main_test.go"
      "package main\n\nvar first = fetch(1)\n\nfunc TestFetch() \x7b\n\tfetch(fetch(2))\n\x7d\n", 0⟩]

theorem weave_patchesTests_testedRequest :
    testedRequest.IsParsed ∧ ∃ before, testedRequest.source? 1 = some before ∧ before.isTest = true ∧
      let setup := Setup.ofProgram testedRequest Catalog.builtIn {}
      let graph := CallGraph.build testedRequest "nrTxn"
      let propagated := setup.propagate graph (setup.inject (Run.ofProgram testedRequest setup))
      ∃ view passed after, Patched graph propagated.1 propagated.2.program
        (setup.weave graph (Run.ofProgram testedRequest setup)) 1 before view passed after := by
  have parsed : testedRequest.IsParsed := by
    intro file member
    rcases List.mem_cons.1 member with rfl | member
    · exact Source.isParsed_load _ _
    · rw [List.mem_singleton.1 member]
      exact Source.isParsed_load _ _
  have test : ((testedRequest.source? 1).any Source.isTest) = true := by decide +kernel
  obtain ⟨before, found, test⟩ := (Option.any_eq_true _ _).1 test
  exact ⟨parsed, before, found, test, weave_patchesTests parsed _ _ found test⟩

end TraceWeave
