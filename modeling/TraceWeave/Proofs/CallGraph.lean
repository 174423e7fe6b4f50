import TraceWeave.Proofs.Barrier
import TraceWeave.Proofs.Reach

/-!
What the call graph of a program says. Each key that the program declares has one function, found by that
key and by its position; and one function calls another exactly if some declaration of the first, in
whatever file, has a call that names the second.
-/
namespace TraceWeave

open Go (Kind Place)

namespace Program

/-- A file declares a function with a key. -/
def Declares (program : Program) (key : FunctionKey) : Prop :=
  ∃ file ∈ program.files, (program.package? file.package).isSome = true ∧
    ∃ decl ∈ FunctionDecl.all file.source, decl.key file.package = key

/-- A declaration with one key has a call in its body that names another key. -/
def Calls (program : Program) (caller callee : FunctionKey) : Prop :=
  ∃ file ∈ program.files, ∃ decl ∈ FunctionDecl.all file.source, decl.key file.package = caller ∧
    ∃ body, decl.body = some body ∧ ∃ call ∈ body.descendants, call.kind = .callExpression ∧
      (Surroundings.ofDecl program file.package (program.importsOf file.source) decl).callTarget? file.source.text call =
        some callee

end Program

namespace CallGraph

variable {program : Program} {handle : String} {a b id : Nat} {key : FunctionKey} {function : GraphFunction}
  {functions : List GraphFunction} {here : Surroundings} {text : String} {caller : Option Nat} {place : Place}

/-! Functions. -/

theorem mem_foldl_addFunction (added : List GraphFunction) (member : function ∈ added.foldl addFunction functions) :
    function ∈ functions ∨ function ∈ added := by
  induction added generalizing functions with
  | nil => exact .inl member
  | cons first added ih =>
      rcases ih member with old | new
      · unfold addFunction at old
        split at old
        · exact .inl old
        · rcases List.mem_append.1 old with old | last
          · exact .inl old
          · exact .inr (List.mem_cons.2 (.inl (List.mem_singleton.1 last)))
      · exact .inr (List.mem_cons_of_mem _ new)

/-- A function of the graph is that of a declaration with a name. -/
theorem exists_decl (member : function ∈ (build program handle).functions) :
    ∃ index file package decl http, program.files[index]? = some file ∧ program.package? file.package = some package ∧
      decl ∈ FunctionDecl.all file.source ∧ decl.name ≠ "_" ∧
      function = functionOf file.source index file.package package http handle decl := by
  obtain contrary | listed := mem_foldl_addFunction _ member
  · cases contrary
  · obtain ⟨index, _, inside⟩ := List.mem_flatMap.1 listed
    unfold functionsOf at inside
    split at inside
    · rename_i file package here owner
      obtain ⟨decl, chosen, rfl⟩ := List.mem_map.1 inside
      obtain ⟨declared, named⟩ := List.mem_filter.1 chosen
      rw [Program.packageOf?, here, Option.bind_some] at owner
      exact ⟨index, file, package, decl, _, here, owner, declared, by simpa using named, rfl⟩
    · cases inside

/-- Functions of test files are run by the test tool at most, those of other files never. -/
theorem isTest_of_entryOf {source : Source} {package : Package} {http : Option String} {decl : FunctionDecl}
    {groups : List ParameterGroup} {entry : Entry} (found : entryOf source package http decl groups = some entry) :
    source.isTest = true ↔ entry = .test := by
  unfold entryOf at found
  split at found
  · rename_i test
    split at found
    · cases found
      simp [test]
    · cases found
  · rename_i production
    split at found
    · cases found
      simp [production]
    · obtain ⟨request, _, rfl⟩ := Option.map_eq_some_iff.1 found
      simp [production]

theorem isTest_of_entry (found : (build program handle).function? id = some function)
    (entry : function.entry = some .test) : function.isTest = true := by
  obtain ⟨_, file, package, decl, http, _, _, _, _, rfl⟩ := exists_decl (List.mem_of_getElem? found)
  exact (isTest_of_entryOf entry).2 rfl

/-! Keys. -/

theorem lookup?_eq_some_iff : (build program handle).lookup? key = some id ↔
    ∃ function, (build program handle).function? id = some function ∧ function.key = key := by
  constructor
  · intro found
    obtain ⟨inside, same, _⟩ := List.findIdx?_eq_some_iff_getElem.1 found
    exact ⟨_, List.getElem?_eq_getElem inside, beq_iff_eq.1 same⟩
  · rintro ⟨function, found, rfl⟩
    exact lookup?_key found

theorem exists_lookup?_iff : (∃ id, (build program handle).lookup? key = some id) ↔
    key.name ≠ "_" ∧ program.Declares key := by
  constructor
  · rintro ⟨id, found⟩
    obtain ⟨function, present, rfl⟩ := lookup?_eq_some_iff.1 found
    obtain ⟨index, file, package, decl, http, here, owner, declared, named, rfl⟩ :=
      exists_decl (List.mem_of_getElem? present)
    exact ⟨named, file, List.mem_of_getElem? here, by rw [owner]; rfl, decl, declared, rfl⟩
  · rintro ⟨named, file, listed, owned, decl, declared, rfl⟩
    obtain ⟨package, owner⟩ := Option.isSome_iff_exists.1 owned
    exact exists_position handle listed owner declared named

/-! Calls. -/

theorem lt_size_of_lookup? {graph : CallGraph} (found : graph.lookup? key = some id) : id < graph.size :=
  (List.findIdx?_eq_some_iff_getElem.1 found).1

theorem call_notMem_valueUsage : Usage.call a b ∉ valueUsage functions here text place := by
  unfold valueUsage
  split
  · exact List.not_mem_nil
  · simp

/-- Only a call in a function is a usage by which one function calls another. -/
theorem call_mem_usageAt : Usage.call a b ∈ usageAt functions here text caller place ↔
    place.kind = .callExpression ∧ caller = some a ∧ ∃ key, here.callTarget? text place = some key ∧
      position? functions key = some b := by
  rw [← Option.bind_eq_some_iff]
  unfold usageAt
  split
  · rename_i call
    unfold callUsage
    split
    · rename_i callee target
      simp only [call, target, List.mem_map, Option.mem_toList, Usage.call.injEq, true_and,
        Option.some.injEq]
      constructor
      · rintro ⟨caller, known, rfl, rfl⟩
        exact ⟨known, rfl⟩
      · rintro ⟨known, rfl⟩
        exact ⟨a, known, rfl, rfl⟩
    · rename_i missing
      simp [missing]
  · rename_i other
    exact iff_of_false call_notMem_valueUsage fun ⟨call, _⟩ => by simp [call] at other
  · rename_i other
    exact iff_of_false call_notMem_valueUsage fun ⟨call, _⟩ => by simp [call] at other
  · rename_i other _ _
    exact iff_of_false List.not_mem_nil fun ⟨call, _⟩ => other call

theorem call_mem_usagesOfDecl {package : Nat} {imports : Imports} {decl : FunctionDecl} :
    Usage.call a b ∈ usagesOfDecl functions program package imports text decl ↔
      position? functions (decl.key package) = some a ∧ ∃ body, decl.body = some body ∧ ∃ call ∈ body.descendants,
        call.kind = .callExpression ∧ ∃ key,
          (Surroundings.ofDecl program package imports decl).callTarget? text call = some key ∧
            position? functions key = some b := by
  unfold usagesOfDecl
  split
  · rename_i caller body known found
    simp only [List.mem_flatMap, call_mem_usageAt, known, found, Option.some.injEq, exists_eq_left']
    constructor
    · rintro ⟨call, below, kind, rfl, target⟩
      exact ⟨rfl, call, below, kind, target⟩
    · rintro ⟨rfl, call, below, kind, target⟩
      exact ⟨call, below, kind, rfl, target⟩
  · rename_i missing
    refine iff_of_false List.not_mem_nil ?_
    rintro ⟨known, body, found, _⟩
    exact missing a body known found

/-- Calls outside of functions have no caller. -/
theorem call_notMem_usagesOfValues {source : Source} : Usage.call a b ∉ usagesOfValues functions here source := by
  simp only [usagesOfValues, List.mem_flatMap, call_mem_usageAt]
  rintro ⟨_, _, _, _, _, contrary, _⟩
  cases contrary

/-- One function calls another exactly if a declaration of the one has a call that names the other. -/
theorem calls_iff : (build program handle).calls a b = true ↔ ∃ caller callee,
    (build program handle).lookup? caller = some a ∧ (build program handle).lookup? callee = some b ∧
      program.Calls caller callee := by
  have usages : (build program handle).calls a b = true ↔ ∃ file ∈ program.files,
      Usage.call a b ∈ usagesOf (functionsIn program handle) program file := by
    rw [calls, List.contains_iff_mem]
    exact List.mem_flatMap
  rw [usages]
  simp only [usagesOf, List.mem_append, call_notMem_usagesOfValues, or_false, List.mem_flatMap, call_mem_usagesOfDecl]
  constructor
  · rintro ⟨file, listed, decl, declared, known, body, found, call, below, kind, key, target, callee⟩
    exact ⟨_, key, known, callee, file, listed, decl, declared, rfl, body, found, call, below, kind, target⟩
  · rintro ⟨_, key, known, callee, file, listed, decl, declared, rfl, body, found, call, below, kind, target⟩
    exact ⟨file, listed, decl, declared, known, body, found, call, below, kind, key, target, callee⟩

/-- What a call graph says about a program. Functions are known by their positions. -/
structure Represents (program : Program) (graph : CallGraph) : Prop where
  /-- A key leads to the position of the function that has it. -/
  index : ∀ key id, graph.lookup? key = some id ↔ ∃ function, graph.function? id = some function ∧ function.key = key
  distinct : (graph.functions.map (·.key)).Nodup
  /-- The keys are those that the program declares, the blank name apart. -/
  keys : ∀ key, (∃ function ∈ graph.functions, function.key = key) ↔ key.name ≠ "_" ∧ program.Declares key
  /-- Calls are known from both ends, which are functions of the graph. -/
  sides : ∀ a b, b ∈ graph.callees a ↔ a ∈ graph.callers b
  ends : ∀ a b, b ∈ graph.callees a → a < graph.size ∧ b < graph.size
  /-- What runs a function fits its file. -/
  entries : ∀ function ∈ graph.functions, ∃ file, program.files[function.file]? = some file ∧
    function.isTest = file.source.isTest ∧ (function.entry = some .test → file.source.isTest = true) ∧
      (function.entry = some .main → file.source.isTest = false) ∧
        ∀ request, function.entry = some (.handler request) → file.source.isTest = false
  calls : ∀ a b, b ∈ graph.callees a ↔ ∃ caller callee, graph.function? a = some caller ∧
    graph.function? b = some callee ∧ program.Calls caller.key callee.key

end CallGraph
end TraceWeave
