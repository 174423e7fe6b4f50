import TraceWeave.Proofs.Evolution
import TraceWeave.Proofs.HandlePlan

/-!
Functions whose parameters change are never used as values. The graph collects uses wherever it looks;
what it has collected keeps a function from being widened, so a widened function has no such use.
-/
namespace TraceWeave

open Go (Kind Node Place)

namespace Program

/-- Where the graph looks for uses of functions: in the bodies of declarations, but not of those with
the blank name, and in variables and constants at file level. -/
inductive Looks (program : Program) : Surroundings → String → Place → Prop where
  | inBody {file : ProgramFile} {package : Package} {decl : FunctionDecl} {body place : Place}
      (listed : file ∈ program.files) (owner : program.package? file.package = some package)
      (member : decl ∈ FunctionDecl.all file.source) (named : decl.name ≠ "_") (found : decl.body = some body)
      (below : place ∈ body.descendants) :
      Looks program (.ofDecl program file.package (program.importsOf file.source) decl) file.source.text place
  | atFile {file : ProgramFile} {item place : Place} (listed : file ∈ program.files)
      (member : item ∈ file.source.rootPlace.parts)
      (kind : item.kind = .varDeclaration ∨ item.kind = .constDeclaration) (below : place ∈ item.descendants) :
      Looks program (.ofFile program file.package (program.importsOf file.source)) file.source.text place

end Program

/-- Whether an expression names something without calling it or declaring it. The `x` of `x.f` is no
expression of its own. -/
def Go.Place.mentions (place : Place) : Bool :=
  (place.kind == .identifier || place.kind == .selectorExpression) &&
    !(place.isCalled || place.declaresName || (place.kind == .identifier && place.isOperand))

namespace CallGraph

/-! Every key is in the graph once. -/

theorem addFunction_keys (functions : List GraphFunction) (function : GraphFunction) :
    (addFunction functions function).map (·.key) =
      if function.key ∈ functions.map (·.key) then functions.map (·.key)
      else functions.map (·.key) ++ [function.key] := by
  unfold addFunction
  have same : functions.any (·.key == function.key) = decide (function.key ∈ functions.map (·.key)) := by
    rw [Bool.eq_iff_iff]
    simp
  rw [same]
  by_cases known : function.key ∈ functions.map (·.key)
  · rw [if_pos known, if_pos (decide_eq_true known)]
  · rw [if_neg known, if_neg (by simpa using known), List.map_append, List.map_singleton]

theorem foldl_addFunction (added : List GraphFunction) {functions : List GraphFunction}
    (distinct : (functions.map (·.key)).Nodup) :
    ((added.foldl addFunction functions).map (·.key)).Nodup ∧
      ∀ key, key ∈ (added.foldl addFunction functions).map (·.key) ↔
        key ∈ functions.map (·.key) ∨ key ∈ added.map (·.key) := by
  induction added generalizing functions with
  | nil => exact ⟨distinct, fun key => by simp⟩
  | cons function added ih =>
      have keys := addFunction_keys functions function
      have distinct' : ((addFunction functions function).map (·.key)).Nodup := by
        rw [keys]
        split
        · exact distinct
        · rename_i fresh
          rw [← List.concat_eq_append]
          exact distinct.concat fresh
      have step : ∀ key, key ∈ (addFunction functions function).map (·.key) ↔
          key ∈ functions.map (·.key) ∨ key = function.key := by
        intro key
        rw [keys]
        split
        · rename_i known
          exact ⟨.inl, fun either => either.elim id fun same => same ▸ known⟩
        · rw [List.mem_append, List.mem_singleton]
      obtain ⟨done, members⟩ := ih distinct'
      refine ⟨done, fun key => ?_⟩
      rw [List.foldl_cons, members key, step key, List.map_cons, List.mem_cons, or_assoc]

theorem functionsIn_nodup (program : Program) (handle : String) :
    ((functionsIn program handle).map (·.key)).Nodup :=
  (foldl_addFunction _ (by simp)).1

/-- A function is found by its own key. -/
theorem lookup?_key {program : Program} {handle : String} {id : Nat} {function : GraphFunction}
    (found : (build program handle).function? id = some function) :
    (build program handle).lookup? function.key = some id := by
  obtain ⟨inside, here⟩ := List.getElem?_eq_some_iff.1 found
  refine List.findIdx?_eq_some_iff_getElem.2 ⟨inside, by simp [here], fun earlier before => ?_⟩
  have distinct := functionsIn_nodup program handle
  have apart := List.pairwise_iff_getElem.1 distinct earlier id
    (by rw [List.length_map]; exact before.trans inside) (by rw [List.length_map]; exact inside) before
  rw [List.getElem_map, List.getElem_map] at apart
  intro contrary
  exact apart ((beq_iff_eq.1 contrary).trans (congrArg (·.key) here.symm))

/-- A declaration that has a name is in the graph. -/
theorem exists_position {program : Program} {file : ProgramFile} {package : Package} {decl : FunctionDecl}
    (handle : String) (listed : file ∈ program.files) (owner : program.package? file.package = some package)
    (member : decl ∈ FunctionDecl.all file.source) (named : decl.name ≠ "_") :
    ∃ id, position? (functionsIn program handle) (decl.key file.package) = some id := by
  obtain ⟨index, inside, rfl⟩ := List.mem_iff_getElem.1 listed
  have known : decl.key program.files[index].package ∈ (functionsOf program handle index).map (·.key) := by
    have here := List.getElem?_eq_getElem inside
    have owned : program.packageOf? index = some package := by
      rw [Program.packageOf?, here]
      exact owner
    simp only [functionsOf, here, owned, List.map_map]
    exact List.mem_map.2 ⟨decl, List.mem_filter.2 ⟨member, by simpa using named⟩, rfl⟩
  have collected : decl.key program.files[index].package ∈ (functionsIn program handle).map (·.key) := by
    refine ((foldl_addFunction _ (by simp)).2 _).2 (.inr ?_)
    rw [List.map_flatMap]
    exact List.mem_flatMap.2 ⟨index, List.mem_range.2 inside, known⟩
  obtain ⟨function, present, same⟩ := List.mem_map.1 collected
  exact Option.isSome_iff_exists.1 (List.findIdx?_isSome.trans (List.any_eq_true.2 ⟨function, present, by simp [same]⟩))

/-- What the graph sees where it looks is among its usages. -/
theorem usages_of_looks {program : Program} {here : Surroundings} {text : String} {place : Place} (handle : String)
    (looks : program.Looks here text place) :
    ∃ caller, ∀ usage ∈ usageAt (functionsIn program handle) here text caller place,
      usage ∈ (build program handle).usages := by
  cases looks with
  | @inBody file package decl body _ listed owner member named found below =>
      obtain ⟨id, known⟩ := exists_position handle listed owner member named
      refine ⟨some id, fun usage used => List.mem_flatMap.2 ⟨file, listed, List.mem_append_left _ ?_⟩⟩
      refine List.mem_flatMap.2 ⟨decl, member, ?_⟩
      simp only [usagesOfDecl, known, found]
      exact List.mem_flatMap.2 ⟨place, below, used⟩
  | @atFile file item _ listed member kind below =>
      refine ⟨none, fun usage used => List.mem_flatMap.2 ⟨file, listed, List.mem_append_right _ ?_⟩⟩
      refine List.mem_flatMap.2 ⟨item, List.mem_filter.2 ⟨member, by simpa using kind⟩, ?_⟩
      exact List.mem_flatMap.2 ⟨place, below, used⟩

section Seen

variable {program : Program} {handle : String} {here : Surroundings} {text : String} {place : Place}

theorem isValue_of_mentions (looks : program.Looks here text place) (mentions : place.mentions = true) {id : Nat}
    (target : (here.target? text place).bind (build program handle).lookup? = some id) :
    (build program handle).isValue id = true := by
  obtain ⟨caller, collected⟩ := usages_of_looks handle looks
  rw [Go.Place.mentions, Bool.and_eq_true, Bool.not_eq_true'] at mentions
  have used : Usage.value id ∈ valueUsage (functionsIn program handle) here text place := by
    have found : (here.target? text place).bind (position? (functionsIn program handle)) = some id := target
    simp [valueUsage, mentions.2, found]
  refine List.elem_eq_true_of_mem (collected _ ?_)
  obtain kind | kind := Bool.or_eq_true_iff.1 mentions.1 <;>
    simpa only [usageAt, beq_iff_eq.1 kind] using used

/-- A call of `x.m` names what the selector is resolved to. -/
theorem callTarget?_of_selector {target : SelectorTarget}
    (selected : (place.child? .function).bind (here.selector? text) = some target) :
    here.callTarget? text place = target.key? := by
  obtain ⟨callee, called, selected⟩ := Option.bind_eq_some_iff.1 selected
  have selector : callee.kind = .selectorExpression := by
    by_contra other
    simp [Surroundings.selector?, other] at selected
  rw [Surroundings.callTarget?, called, Option.bind_some, Surroundings.target?, selector]
  simp only [selected, Option.bind_some]

theorem isDynamic_of_call (looks : program.Looks here text place) (call : place.kind = .callExpression)
    {target : SelectorTarget} (selected : (place.child? .function).bind (here.selector? text) = some target)
    (unknown : target.key?.bind (build program handle).lookup? = none) {name : String}
    (method : target.method? = some name) : (build program handle).isDynamic name = true := by
  obtain ⟨caller, collected⟩ := usages_of_looks handle looks
  refine List.elem_eq_true_of_mem (collected _ ?_)
  have missing : target.key?.bind (position? (functionsIn program handle)) = none := unknown
  have dynamic : here.dynamicMethod? text place = some name := by
    rw [Surroundings.dynamicMethod?, selected, Option.bind_some, method]
  simp [usageAt, call, callUsage, callTarget?_of_selector selected, missing, dynamic]

end Seen

/-- Nothing in sight uses a function other than by calling it: no expression names it as a value, and
a method is not called through a value whose type is unknown, or lacks a method of that name. -/
structure OnlyCalled (program : Program) (graph : CallGraph) (key : FunctionKey) : Prop where
  noValue : ∀ {here text place}, program.Looks here text place → place.mentions = true →
    here.target? text place ≠ some key
  noUnknown : key.receiver.isSome → ∀ {here text call}, program.Looks here text call →
    call.kind = .callExpression → (call.child? .function).bind (here.selector? text) ≠ some (.dynamic key.name)
  noMissing : key.receiver.isSome → ∀ {here text call other}, program.Looks here text call →
    call.kind = .callExpression → (call.child? .function).bind (here.selector? text) = some (.resolved other) →
    other.receiver.isSome → graph.lookup? other = none → other.name ≠ key.name

/-- A function that may change its parameters is used by calls only. -/
theorem onlyCalled_of_not_keeps {program : Program} {handle : String} {id : Nat} {function : GraphFunction}
    (found : (build program handle).function? id = some function)
    (free : (build program handle).keepsParameters id function = false) :
    OnlyCalled program (build program handle) function.key := by
  simp only [keepsParameters, Bool.or_eq_false_iff, Bool.and_eq_false_iff] at free
  obtain ⟨⟨⟨⟨noValue, _⟩, _⟩, noInterface⟩, _⟩ := free
  have noDynamic : function.key.receiver.isSome → (build program handle).isDynamic function.key.name = false := by
    intro method
    rw [method] at noInterface
    exact (noInterface.resolve_left (by simp)).2
  refine ⟨?_, ?_, ?_⟩
  · intro here text place looks mentions contrary
    have used : (build program handle).isValue id = true :=
      isValue_of_mentions looks mentions (by rw [contrary]; exact lookup?_key found)
    rw [noValue] at used
    cases used
  · intro method here text call looks kind contrary
    have used : (build program handle).isDynamic function.key.name = true :=
      isDynamic_of_call looks kind contrary rfl rfl
    rw [noDynamic method] at used
    cases used
  · intro method here text call other looks kind selected receiver missing same
    have named : (SelectorTarget.resolved other).method? = some function.key.name := by
      simp only [SelectorTarget.method?, receiver, if_true, same]
    have used := isDynamic_of_call looks kind selected missing named
    rw [noDynamic method] at used
    cases used

end CallGraph

namespace HandlePlan

/-- The plan widens no function that must keep its parameters. -/
theorem Progress.not_keeps {graph : CallGraph} {seeds : List FunctionKey} {plan : HandlePlan} {id : Nat}
    {function : GraphFunction} (progress : Progress graph seeds plan) (widens : plan.widens id = true)
    (found : graph.function? id = some function) : graph.keepsParameters id function = false := by
  obtain ⟨_, other, path, entry, lacks⟩ := (progress.widened id).1 (List.contains_iff_mem.1 widens)
  cases path.unique found
  have free := path.isOpen.2.2.2
  simpa [isBlocked, lacks, CallGraph.isBarrier, found, entry] using free

/-- A function that gets a handle parameter is used by calls only, wherever the graph looks. -/
theorem compute_onlyCalled (program : Program) (handle : String) {seeds : List FunctionKey} (distinct : seeds.Nodup)
    {id : Nat} {function : GraphFunction}
    (found : (CallGraph.build program handle).function? id = some function)
    (widens : (compute (CallGraph.build program handle) seeds).widens id = true) :
    CallGraph.OnlyCalled program (CallGraph.build program handle) function.key :=
  CallGraph.onlyCalled_of_not_keeps found ((compute_progress _ distinct).1.not_keeps widens found)

end HandlePlan

/-- `main` calls `fetch` of a client. -/
def methodCall : String :=
  "package main\n\ntype client struct\x7b\x7d\n\nfunc (c client) fetch() \x7b\x7d\n\n" ++
    "func main() \x7b\n\tvar c client\n\tc.fetch()\n\x7d\n"

theorem HandlePlan.compute_onlyCalled_methodCall :
    ∃ program function, Loader.load (soleDisk methodCall) "/" {} = .ok program ∧
      let graph := CallGraph.build program "nrTxn"
      let seeds := [FunctionKey.method 0 "client" "fetch"]
      seeds.Nodup ∧ graph.function? 0 = some function ∧ (HandlePlan.compute graph seeds).widens 0 = true ∧
        CallGraph.OnlyCalled program graph function.key := by
  have holds : (Loader.load (soleDisk methodCall) "/" {}).toOption.any (fun program =>
      let graph := CallGraph.build program "nrTxn"
      (graph.function? 0).isSome &&
        (HandlePlan.compute graph [.method 0 "client" "fetch"]).widens 0) = true := by decide +kernel
  obtain ⟨program, loaded, holds⟩ := exists_of_any_toOption holds
  obtain ⟨known, widens⟩ := Bool.and_eq_true_iff.1 holds
  obtain ⟨function, found⟩ := Option.isSome_iff_exists.1 known
  exact ⟨program, function, loaded, by decide, found, widens,
    HandlePlan.compute_onlyCalled program "nrTxn" (by decide) found widens⟩

/-- Whether a test holds somewhere in a body that the graph looks into. -/
def Program.anyInBody (program : Program) (test : Surroundings → String → Place → Bool) : Bool :=
  program.files.any fun file => (program.package? file.package).isSome &&
    (FunctionDecl.all file.source).any fun decl => decl.name != "_" && decl.body.any fun body =>
      body.descendants.any (test (.ofDecl program file.package (program.importsOf file.source) decl) file.source.text)

theorem Program.exists_of_anyInBody {program : Program} {test : Surroundings → String → Place → Bool}
    (passes : program.anyInBody test = true) :
    ∃ here text place, program.Looks here text place ∧ test here text place = true := by
  obtain ⟨file, listed, passes⟩ := List.any_eq_true.1 passes
  obtain ⟨owned, passes⟩ := Bool.and_eq_true_iff.1 passes
  obtain ⟨package, owner⟩ := Option.isSome_iff_exists.1 owned
  obtain ⟨decl, member, passes⟩ := List.any_eq_true.1 passes
  obtain ⟨named, passes⟩ := Bool.and_eq_true_iff.1 passes
  obtain ⟨body, found, passes⟩ := (Option.any_eq_true _ _).1 passes
  obtain ⟨place, below, passes⟩ := List.any_eq_true.1 passes
  exact ⟨_, _, place, .inBody listed owner member (by simpa using named) found below, passes⟩

/-- A widened function and a place in sight, found by running the loader and the plan. -/
theorem exists_of_anyTaken (file : String) (seeds : List FunctionKey) (id : Nat)
    (test : GraphFunction → Surroundings → String → Place → Bool)
    (holds : (Loader.load (soleDisk file) "/" {}).toOption.any (fun program =>
      let graph := CallGraph.build program "nrTxn"
      (graph.function? id).any fun function =>
        (HandlePlan.compute graph seeds).widens id && program.anyInBody (test function)) = true) :
    ∃ program function here text place, Loader.load (soleDisk file) "/" {} = .ok program ∧
      (CallGraph.build program "nrTxn").function? id = some function ∧
      (HandlePlan.compute (CallGraph.build program "nrTxn") seeds).widens id = true ∧
      program.Looks here text place ∧ test function here text place = true := by
  obtain ⟨program, loaded, holds⟩ := exists_of_any_toOption holds
  obtain ⟨function, found, holds⟩ := (Option.any_eq_true _ _).1 holds
  obtain ⟨widens, holds⟩ := Bool.and_eq_true_iff.1 holds
  obtain ⟨here, text, place, looks, taken⟩ := Program.exists_of_anyInBody holds
  exact ⟨program, function, here, text, place, loaded, found, widens, looks, taken⟩

/-- `main` calls `fetch` of a client, and takes `fetch` of another client as a value. -/
def methodValue : String :=
  "package main\n\nimport \"net/http\"\n\ntype client struct\x7b\x7d\n\n" ++
    "func (c client) fetch() \x7b\n\thttp.Get(\"x\")\n\x7d\n\n" ++
    "func main() \x7b\n\tvar c client\n\tc.fetch()\n\tget := (client\x7b\x7d).fetch\n\tget()\n\x7d\n"

/-- `main` calls `each` and ranges over it. -/
def rangedFunction : String :=
  "package main\n\nimport \"net/http\"\n\nfunc main() \x7b\n\teach(nil)\n\tfor x := range each \x7b\n\t\t_ = x\n\t\x7d\n\x7d\n\n" ++
    "func each(yield func(int) bool) \x7b\n\thttp.Get(\"x\")\n\x7d\n"

/-- Two uses as a value that do not keep a function from being widened: a method of a value whose type
is unknown, and a function that stands alone behind `range`. -/
theorem widened_taken :
    (∃ program function here text place, Loader.load (soleDisk methodValue) "/" {} = .ok program ∧
      (CallGraph.build program "nrTxn").function? 0 = some function ∧
      (HandlePlan.compute (CallGraph.build program "nrTxn") [.method 0 "client" "fetch"]).widens 0 = true ∧
      program.Looks here text place ∧ place.isCalled = false ∧ function.key.receiver.isSome ∧
      here.selector? text place = some (.dynamic function.key.name)) ∧
    ∃ program function here text place, Loader.load (soleDisk rangedFunction) "/" {} = .ok program ∧
      (CallGraph.build program "nrTxn").function? 1 = some function ∧
      (HandlePlan.compute (CallGraph.build program "nrTxn") [.function 0 "each"]).widens 1 = true ∧
      program.Looks here text place ∧ place.kind = .identifier ∧ place.node.role = some .right ∧
      place.isCalled = false ∧ here.target? text place = some function.key := by
  constructor
  · obtain ⟨program, function, here, text, place, loaded, found, widens, looks, taken⟩ :=
      exists_of_anyTaken methodValue [.method 0 "client" "fetch"] 0
        (fun function here text place => decide (place.isCalled = false ∧ function.key.receiver.isSome ∧
          here.selector? text place = some (.dynamic function.key.name))) (by decide +kernel)
    exact ⟨program, function, here, text, place, loaded, found, widens, looks, of_decide_eq_true taken⟩
  · obtain ⟨program, function, here, text, place, loaded, found, widens, looks, taken⟩ :=
      exists_of_anyTaken rangedFunction [.function 0 "each"] 1
        (fun function here text place => decide (place.kind = .identifier ∧ place.node.role = some .right ∧
          place.isCalled = false ∧ here.target? text place = some function.key)) (by decide +kernel)
    exact ⟨program, function, here, text, place, loaded, found, widens, looks, of_decide_eq_true taken⟩

end TraceWeave
