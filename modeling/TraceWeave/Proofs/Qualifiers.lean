import TraceWeave.Proofs.Agent
import TraceWeave.Proofs.NewCode
import TraceWeave.Proofs.Acceptance

/-!
What new code calls a package, and what the file means by that name. The name is taken from the imports of
the file when the code is written; imports are added at the end. The two go by different tests: the name is
that of an import one can use, and an import is missing if no import at all has its path.
-/
namespace TraceWeave

theorem nodup_eraseDups {α : Type} [BEq α] [LawfulBEq α] (values : List α) : values.eraseDups.Nodup := by
  induction size : values.length using Nat.strong_induction_on generalizing values with
  | _ size ih =>
      cases values with
      | nil => simp
      | cons value values =>
          subst size
          rw [List.eraseDups_cons, List.nodup_cons]
          constructor
          · simp
          · refine ih _ ?_ _ rfl
            rw [List.length_cons]
            exact Nat.lt_succ_of_le (List.length_filter_le _ _)

theorem mem_sortedSet {texts : List String} {text : String} : text ∈ sortedSet texts ↔ text ∈ texts := by
  rw [sortedSet, Selection.inOrder, List.mem_mergeSort, List.mem_eraseDups]

theorem sortedSet_nodup (texts : List String) : (sortedSet texts).Nodup :=
  (List.mergeSort_perm _ _).nodup_iff.2 (nodup_eraseDups texts)

/-- An import as it is added, without a name of its own. -/
def Import.plain (path : String) : Import := ⟨Import.defaultName path, path, false⟩

namespace Imports

variable {before after : Imports} {added : List String} {path name : String}

/-- Plain imports were added, wherever they stand. -/
def Extends (before after : Imports) (added : List String) : Prop :=
  after.entries.Perm (before.entries ++ added.map Import.plain)

/-- The package is imported, and there is no name to use it by. -/
def Nameless (imports : Imports) (path : String) : Prop :=
  imports.hasPath path = true ∧ imports.nameFor? path = none

/-- No other package is imported under a name. -/
def Alone (imports : Imports) (name path : String) : Prop :=
  ∀ entry ∈ imports.entries, entry.name = name → entry.path = path

theorem exists_of_nameFor? (found : before.nameFor? path = some name) :
    ∃ entry ∈ before.entries, entry.path = path ∧ entry.name = name ∧ binds entry = true := by
  obtain ⟨entry, first, same⟩ := Option.map_eq_some_iff.1 found
  have test := List.find?_some first
  rw [Bool.and_eq_true, beq_iff_eq] at test
  exact ⟨entry, List.mem_of_find?_eq_some first, test.1, same, test.2⟩

theorem isSome_nameFor? {entry : Import} (member : entry ∈ before.entries) (has : entry.path = path)
    (usable : binds entry = true) : (before.nameFor? path).isSome = true := by
  rw [nameFor?, Option.isSome_map, List.find?_isSome]
  exact ⟨entry, member, by rw [has, beq_self_eq_true, usable, Bool.and_self]⟩

/-- An import that nothing stands beside is the one behind its name. -/
theorem pathFor?_of_alone {entry : Import} (member : entry ∈ before.entries) (usable : binds entry = true)
    (alone : before.Alone entry.name entry.path) : before.pathFor? entry.name = some entry.path := by
  have proper : (entry.name == "_" || entry.name == ".") = false := by
    simpa [binds] using usable
  rw [pathFor?, if_neg (by rw [proper]; exact Bool.false_ne_true)]
  cases first : before.entries.find? (·.name == entry.name) with
  | none =>
      have fails := List.find?_eq_none.1 first entry member
      simp at fails
  | some other =>
      have same : other.name = entry.name := by simpa using List.find?_some first
      exact congrArg some (alone other (List.mem_of_find?_eq_some first) same)

theorem exists_of_pathFor? (bound : before.pathFor? name = some path) :
    ∃ entry ∈ before.entries, entry.path = path ∧ binds entry = true := by
  unfold pathFor? at bound
  split at bound
  · cases bound
  · rename_i proper
    obtain ⟨entry, first, same⟩ := Option.map_eq_some_iff.1 bound
    have called : entry.name = name := by simpa using List.find?_some first
    refine ⟨entry, List.mem_of_find?_eq_some first, same, ?_⟩
    rw [← called] at proper
    simpa [binds] using proper

/-- The name that new code has for a package is bound to it at the end, unless every import of the package
goes without a name. -/
theorem pathFor?_callName (grown : before.Extends after added)
    (covered : before.hasPath path = true ∨ path ∈ added)
    (fresh : ∀ path ∈ added, before.hasPath path = false) (usable : binds (.plain path) = true)
    (alone : after.Alone (before.callName path) path) :
    after.pathFor? (before.callName path) = some path ↔ ¬ before.Nameless path := by
  constructor
  · -- an import behind a name can be used by it, and a package that has one is not added
    rintro bound ⟨has, nameless⟩
    obtain ⟨entry, member, same, binding⟩ := exists_of_pathFor? bound
    rcases List.mem_append.1 (grown.mem_iff.1 member) with old | new
    · have named := isSome_nameFor? old same binding
      rw [nameless] at named
      cases named
    · obtain ⟨other, listed, rfl⟩ := List.mem_map.1 new
      have absent : before.hasPath path = false := same ▸ fresh other listed
      cases has.symm.trans absent
  · intro usual
    cases named : before.nameFor? path with
    | some name =>
        obtain ⟨entry, member, rfl, rfl, binding⟩ := exists_of_nameFor? named
        rw [callName, named, Option.getD_some] at alone ⊢
        exact pathFor?_of_alone (grown.mem_iff.2 (List.mem_append_left _ member)) binding alone
    | none =>
        have absent : before.hasPath path ≠ true := fun has => usual ⟨has, named⟩
        have listed : path ∈ added := covered.resolve_left absent
        rw [callName, named, Option.getD_none] at alone ⊢
        have member : Import.plain path ∈ after.entries :=
          grown.mem_iff.2 (List.mem_append_right _ (List.mem_map_of_mem listed))
        have bound := pathFor?_of_alone member usable alone
        exact bound

end Imports

/-- Packages that new code may name. -/
def Code.builtIn : List String := [Integration.agentPath, Slog.wrapperPath, Gin.middlewarePath, "time"]

theorem Code.packages_subset (settings : Settings) (code : Code) : code.packages settings ⊆ Code.builtIn := by
  cases code with
  | agent failure =>
      cases app : settings.appName <;>
        simp [Code.builtIn, Code.packages, Code.lines, Code.appName, app, Piece.path?, List.filterMap_cons]
  | _ => simp [Code.builtIn, Code.packages, Code.lines, Piece.path?, List.filterMap_cons]

/-- They can be called by the names that their paths suggest. -/
theorem Code.binds_plain : ∀ path ∈ Code.builtIn, Imports.binds (.plain path) = true := by decide +kernel

/-! Imports at the end. -/

/-- A file before and after imports are added to it. -/
structure Supplied (program : Program) (recorded : List String) (before after : Source) (added : List String) :
    Prop where
  /-- Paths on record that the file does not import, each once. -/
  lacking : ∀ path, path ∈ added ↔ path ∈ recorded ∧ (program.importsOf before).hasPath path = false
  distinct : added.Nodup
  text : before.apply (ImportEdit.ofPaths before.text before.root added) = .ok after

namespace Run

variable {run : Run} {file : Nat} {before : Source}

theorem mem_importsFor {path : String} : path ∈ run.importsFor file ↔ (file, path) ∈ run.imports := by
  rw [importsFor, mem_sortedSet]
  simp

theorem foldl_addImportsTo_imports (files : List Nat) (run : Run) :
    (files.foldl addImportsTo run).imports = run.imports := by
  induction files generalizing run with
  | nil => rfl
  | cons file files ih => exact (ih _).trans (run.addImportsTo_imports file)

/-- Every file gets the imports that are on record for it and that it lacks. -/
theorem addImports_supplies (parsed : run.program.IsParsed) (found : run.program.source? file = some before) :
    ∃ after added, run.addImports.program.source? file = some after ∧
      Supplied run.program (run.importsFor file) before after added := by
  obtain ⟨entry, here, rfl⟩ := Option.map_eq_some_iff.1 found
  have inside : file ∈ List.range run.program.files.length :=
    List.mem_range.2 (List.getElem?_eq_some_iff.1 here).1
  obtain ⟨earlier, later, _, _, _, before, after⟩ := foldl_turn addImportsTo_evolves List.nodup_range inside run
  have imports := foldl_addImportsTo_imports earlier run
  generalize earlier.foldl addImportsTo run = middle at before after imports
  have found' : middle.program.source? file = some entry.source :=
    before.spares.trans found
  have recorded : middle.importsFor file = run.importsFor file := by rw [importsFor, importsFor, imports]
  let added := (run.importsFor file).filter fun path => !(run.program.importsOf entry.source).hasPath path
  obtain ⟨changed, applied⟩ := ImportEdit.ofPaths_accepted (parsed entry (List.mem_of_getElem? here)) added
  have turn : (middle.addImportsTo file).program.source? file = some changed := by
    unfold addImportsTo
    rw [found']
    dsimp only
    rw [recorded, before.importsOf, middle.applyBatch_source? found', Source.applied, applied]
  refine ⟨changed, added, after.spares.trans turn, ?_⟩
  constructor
  · intro path
    rw [List.mem_filter, Bool.not_eq_true']
  · exact (sortedSet_nodup _).filter _
  · exact applied

end Run

namespace Setup

variable {setup : Setup} {graph : CallGraph} {run : Run} {stage : Stage} {batch : Batch}

theorem Plans.accepted (plans : setup.Plans stage batch) (builtIn : setup.catalog = Catalog.builtIn)
    (parsed : batch.program.IsParsed) {source : Source} (found : batch.program.source? batch.file = some source) :
    batch.Accepted := by
  have hands : ∃ graph, setup.Hands graph (.start batch.program []) batch.file batch.edits := by
    cases plans with
    | injections done => exact ⟨⟨[], [], []⟩, .injections done⟩
    | handles same _ here done => exact ⟨_, .handles same rfl here done⟩
    | testCalls graph widened here => exact ⟨graph, .testCalls widened here⟩
    | agent here done => exact ⟨⟨[], [], []⟩, .agent here done⟩
  obtain ⟨graph, hands⟩ := hands
  obtain ⟨changed, applied⟩ := hands.accepted builtIn parsed found
  exact ⟨source, changed, found, applied⟩

theorem foldl_perform_leads (setup : Setup) (graph : CallGraph) (stages : List Stage) (run : Run) :
    run.Leads (fun batch => ∃ stage, setup.Plans stage batch)
      (stages.foldl (fun run stage => setup.perform graph stage run) run) := by
  induction stages generalizing run with
  | nil => exact .refl run
  | cons stage stages ih =>
      have first : run.Leads (fun batch => ∃ stage, setup.Plans stage batch) (setup.perform graph stage run) :=
        (setup.perform_leads graph stage run).mono fun _ passes => ⟨stage, passes.2⟩
      exact first.trans (ih _)

end Setup

/-- Imports read back as they were meant: the code that the stages wrote for a file left them as they were,
and those added at the end are there besides. -/
structure ReadsBack (program : Program) (source before after : Source) (added : List String) : Prop where
  kept : program.importsOf before = program.importsOf source
  grown : (program.importsOf source).Extends (program.importsOf after) added

/-- A router in `main`, in a file with one more import. -/
def routerBeside (spec : String) : String :=
  "package main\nimport (\n\"github.com/gin-gonic/gin\"\n" ++ spec ++ ")\nfunc main() \x7b\nr := gin.New()\n\x7d\n"

/-- A router in a file with a blank import of the package of the middleware. -/
def blankRouter : String := routerBeside ("_ \"" ++ Gin.middlewarePath ++ "\"\n")

/-- What a run without an agent makes of it. -/
def blankRouted : String := routedInMain "" ("_ \"" ++ Gin.middlewarePath ++ "\"\n")

theorem blankRouter_routes : routesTo { bootstrap := false } blankRouter blankRouted blankRouted = true := by
  apply routesTo_of_stages <;> decide +kernel

end TraceWeave
