import TraceWeave.Proofs.CallGraph
import TraceWeave.Proofs.HandleRest
import TraceWeave.Proofs.Reach
import TraceWeave.Proofs.Seeds
import TraceWeave.Proofs.HandlePlan

/-!
Where calls pass `nil`. A call of a function that takes the handle passes the handle on, unless there is
none: the plan says of every function that calls such a function why it does not know the handle, and
inside a function only a goroutine with parameters that have no names keeps the handle out.
-/
namespace TraceWeave

open Go (Node Place Token)
open Go.Node (Annotated)
open Go.Place (Below)

/-- A goroutine around the place cannot take the handle: some parameter of its literal has no name. -/
structure Shut (source : String) (literal : Node) (outer : List Node) : Prop where
  is : literal.kind = .funcLiteral
  launched : (launchOf? literal outer).isSome = true
  unnamed : ∃ list, literal.child? .parameters = some list ∧ ∃ group ∈ ParameterGroup.ofList list source, group.names = []

/-- Why there is no handle at a call, where `id` is the function it stands in. -/
inductive NoHandle (graph : CallGraph) (id : Nat) (function : GraphFunction) (source : String) (around : List Node) :
    Prop where
  | unreached (apart : ¬ graph.Reached id)
  | barrier (is : graph.isBarrier id = true) (lacks : function.hasHandle = false)
  /-- A handler without a usable name for its request. -/
  | handler (entry : function.entry = some (.handler none)) (lacks : function.hasHandle = false)
  | goroutine {inner outer : List Node} {literal : Node} (inside : around = inner ++ literal :: outer)
      (shut : Shut source literal outer)

theorem LiteralKind.shut_of_judge {source handle : String} {http : Option String} {literal : Node} {outer : List Node}
    (is : literal.kind = .funcLiteral) (judged : judge source handle http literal outer = .unnamed) :
    Shut source literal outer := by
  unfold judge at judged
  dsimp only at judged
  split at judged
  · cases judged
  · split at judged
    · rename_i launch launched
      split at judged
      · cases judged
      · rename_i unnamed
        refine ⟨is, by rw [launched]; rfl, ?_⟩
        cases has : literal.child? .parameters with
        | none =>
            rw [has] at unnamed
            exact absurd rfl unnamed
        | some list =>
            rw [has] at unnamed
            refine ⟨list, rfl, ?_⟩
            simpa [ParameterGroup.allNamed] using unnamed
    · split at judged
      · cases judged
      · cases judged

/-- Where the handle is not known, the function does not have it, or a goroutine keeps it out. -/
theorem HandleScope.exists_of_knows_eq_false {scope : HandleScope} {around : List Node}
    (unknown : scope.knows around = false) : scope.available = false ∨
      ∃ inner literal outer, around = inner ++ literal :: outer ∧ Shut scope.source.text literal outer := by
  -- from the place outwards, as the scope looks for a literal that settles the matter
  induction around with
  | nil => exact .inl unknown
  | cons node around ih =>
      have further : scope.knows around = false → scope.available = false ∨
          ∃ inner literal outer, node :: around = inner ++ literal :: outer ∧ Shut scope.source.text literal outer := by
        intro unknown
        rcases ih unknown with lacks | ⟨inner, literal, outer, rfl, shut⟩
        · exact .inl lacks
        · exact .inr ⟨node :: inner, literal, outer, rfl, shut⟩
      unfold HandleScope.knows at unknown
      split at unknown
      · exact .inl unknown
      · split at unknown
        · rename_i is
          split at unknown
          · cases unknown
          · cases unknown
          · rename_i judged
            exact .inr ⟨[], node, around, rfl, LiteralKind.shut_of_judge (beq_iff_eq.1 is) judged⟩
          · exact further unknown
          · exact further unknown
        · exact further unknown

/-- A function that calls one which takes the handle knows it, or there is a reason why not. -/
theorem HandlePlan.FollowsPaths.carries_or {graph : CallGraph} {seeds : List FunctionKey} {plan : HandlePlan}
    (follows : FollowsPaths graph seeds plan) {id callee : Nat} {function : GraphFunction}
    (tests : function.entry = some .test → function.isTest = true) (found : graph.function? id = some function)
    (production : function.isTest = false) (calls : graph.calls id callee = true) (widens : plan.widens callee = true)
    (source : String) (around : List Node) :
    plan.carries id = true ∨ NoHandle graph id function source around := by
  obtain ⟨next, path, inner, _⟩ := (follows.widened callee).1 (List.contains_iff_mem.1 widens)
  -- the walk goes on from the callee to a caller that is reachable and not blocked
  by_cases reached : id ∈ graph.reachable
  · by_cases blocked : isBlocked graph id function = true
    · right
      simp only [isBlocked, Bool.and_eq_true, Bool.not_eq_true'] at blocked
      exact .barrier blocked.1 blocked.2
    · have here : LeadsToSeed graph seeds id function :=
        .call calls ⟨found, production, reached, by simpa using blocked⟩ path inner
      have carries : knowsHandle function = true → plan.carries id = true := fun knows =>
        List.contains_iff_mem.2 ((follows.carriers id).2 ⟨function, here, knows⟩)
      rcases entry : function.entry with _ | _ | request | _
      · exact .inl (carries (by rw [knowsHandle, entry]))
      · exact .inl (carries (by rw [knowsHandle, entry]))
      · by_cases usable : (request.isSome || function.hasHandle) = true
        · exact .inl (carries (by rw [knowsHandle, entry]; exact usable))
        · right
          simp only [Bool.or_eq_true, not_or, Bool.not_eq_true] at usable
          cases request with
          | none => exact .handler entry usable.2
          | some request => cases usable.1
      · exact absurd (tests entry) (by simp [production])
  · exact .inr (.unreached fun contrary => reached (CallGraph.mem_reachable.2 contrary))

namespace HandleSite

variable {site : HandleSite} {here : Surroundings} {top : Place}

/-- The handle as a call passes it. -/
def handleFor (site : HandleSite) (call : Place) : String :=
  if isLaunched call.around then site.goroutineHandle else site.handle

/-- What a call passes: the handle where it is known. -/
def argumentAt (site : HandleSite) (scope : HandleScope) (call : Place) : String :=
  if scope.knows call.around then site.handleFor call else "nil"

/-- Calls have been looked at, in order, and each passes what is known at its place. -/
structure CallsAnswered (site : HandleSite) (here : Surroundings) (top : Place) (places : List Place)
    (before after : List Edit × HandleScope) (passed : List Passed) : Prop where
  grows : before.2.Grows after.2
  exact : HandleScope.Exact top after.2
  edits : after.1 = before.1 ++ passed.map Passed.edit
  targets : passed.map Passed.target = places.filterMap fun call =>
    (widenedCallee? site.graph site.plan.widens here site.source.text call).map fun callee => (call, callee)
  argument : ∀ one ∈ passed, one.argument = site.argumentAt before.2 one.call

theorem callEdit_answered (here : Surroundings) (annotated : Annotated (Token.Clear site.source.text) top.node)
    (closed : HandleScope.Closed top) {state : List Edit × HandleScope} (exact : HandleScope.Exact top state.2)
    {call : Place} (below : Below top call) :
    ∃ passed, site.CallsAnswered here top [call] state (site.callEdit here state call) passed := by
  unfold callEdit
  split
  · rename_i named
    refine ⟨[], .refl _, exact, by simp, ?_, by simp⟩
    rw [List.filterMap_cons_none (by rw [named]; rfl)]
    rfl
  · rename_i callee named
    have answered := HandleScope.availableAt_exactly annotated closed exact below
    dsimp only
    generalize state.2.availableAt call = result at answered ⊢
    obtain ⟨one, target, argument, listed, added⟩ := exists_listed (below.annotated annotated) named
      (if !result.1 then "nil" else if isLaunched call.around then site.goroutineHandle else site.handle)
    have same : one.call = call := congrArg Prod.fst target
    refine ⟨[one], answered.grows, answered.exact, ?_, ?_, ?_⟩
    · rw [added]
      rfl
    · rw [List.filterMap_cons_some (by rw [named]; rfl), List.map_singleton, target]
      rfl
    · rw [List.forall_mem_singleton, argument, same, argumentAt, ← answered.answer, handleFor]
      cases result.1 <;> rfl

theorem foldl_callEdit_answered (here : Surroundings) (annotated : Annotated (Token.Clear site.source.text) top.node)
    (closed : HandleScope.Closed top) {state : List Edit × HandleScope} (exact : HandleScope.Exact top state.2)
    {places : List Place} (below : ∀ place ∈ places, Below top place) :
    ∃ passed, site.CallsAnswered here top places state (places.foldl (site.callEdit here) state) passed := by
  induction places generalizing state with
  | nil => exact ⟨[], .refl _, exact, by simp, rfl, by simp⟩
  | cons call places ih =>
      obtain ⟨first, below⟩ := List.forall_mem_cons.1 below
      obtain ⟨passed, one⟩ := callEdit_answered here annotated closed exact first
      obtain ⟨passed', rest⟩ := ih one.exact below
      refine ⟨passed ++ passed', one.grows.trans rest.grows, rest.exact, ?_, ?_, ?_⟩
      · rw [List.foldl_cons, rest.edits, one.edits, List.map_append, List.append_assoc]
      · rw [List.map_append, one.targets, rest.targets, ← List.filterMap_append]
        rfl
      · intro other member
        rcases List.mem_append.1 member with earlier | later
        · exact one.argument other earlier
        · -- what the first call adds to the scope does not change the answers
          rw [rest.argument other later, argumentAt, argumentAt, one.grows.knows]

/-- The calls in a declaration, and what each of them passes. -/
structure CallsPass (site : HandleSite) (id : Nat) (decl : FunctionDecl) (body : Place) (edits : List Edit)
    (passed : List Passed) : Prop where
  among : (passed.map Passed.edit).Sublist edits
  targets : passed.map Passed.target = widenedCalls site.graph site.plan.widens
    (.ofDecl site.program site.package site.imports decl) site.source.text body
  argument : ∀ one ∈ passed, one.argument = site.argumentAt (site.firstScope id) one.call

variable {withDeferred : Bool} {decl : FunctionDecl} {id : Nat} {body : Place} {made : HandleEdits}

theorem declEdits_passes (parsed : site.source.IsParsed) (member : decl ∈ FunctionDecl.all site.source)
    (known : site.graph.lookup? (decl.key site.package) = some id) (found : decl.body = some body)
    (done : site.declEdits withDeferred decl = .ok made) : ∃ passed, site.CallsPass id decl body made.edits passed := by
  have annotated := FunctionDecl.annotated_body parsed member found
  have closed := FunctionDecl.closed_body member found
  obtain ⟨passed, calls⟩ := site.foldl_callEdit_answered
    (.ofDecl site.program site.package site.imports decl) annotated closed
    (show HandleScope.Exact body (([], site.firstScope id) : List Edit × HandleScope).2 from site.firstScope_exact id body)
    (fun place met => Go.Place.mem_descendants.1 met)
  have among : ∀ before after : List Edit, (passed.map Passed.edit).Sublist (before ++
      (site.callEdits (.ofDecl site.program site.package site.imports decl) (site.firstScope id) body).1 ++ after) := by
    intro before after
    have same : (site.callEdits (.ofDecl site.program site.package site.imports decl) (site.firstScope id) body).1 =
        passed.map Passed.edit := calls.edits
    rw [same]
    exact (List.sublist_append_right _ _).trans (List.sublist_append_left _ _)
  refine ⟨passed, ?_, calls.targets, calls.argument⟩
  unfold declEdits at done
  rw [known, found] at done
  dsimp only at done
  split at done
  · obtain ⟨result, _, done⟩ := exists_of_bind_eq_ok done
    cases done
    exact among _ _
  · cases done
    exact among _ _

theorem fileEdits_passes (parsed : site.source.IsParsed) (member : decl ∈ FunctionDecl.all site.source)
    (known : site.graph.lookup? (decl.key site.package) = some id) (found : decl.body = some body)
    (done : site.fileEdits withDeferred = .ok made) : ∃ passed, site.CallsPass id decl body made.edits passed := by
  unfold fileEdits at done
  obtain ⟨parts, mapped, done⟩ := exists_of_bind_eq_ok done
  cases done
  obtain ⟨part, listed, first⟩ := exists_mem_of_mapM mapped member
  obtain ⟨passed, passes⟩ := declEdits_passes parsed member known found first
  refine ⟨passed, ?_, passes.targets, passes.argument⟩
  have inside : part.edits.Sublist (parts.flatMap (·.edits)) := List.sublist_flatten_of_mem (List.mem_map_of_mem listed)
  exact (passes.among.trans inside).trans (List.sublist_append_left _ _)

/-- Every call of a declaration that the graph knows about passes the handle, or there is none. -/
def Explains (site : HandleSite) (edits : List Edit) : Prop :=
  ∀ decl ∈ FunctionDecl.all site.source, ∀ id function body,
    site.graph.lookup? (decl.key site.package) = some id → site.graph.function? id = some function →
    function.isTest = false → decl.body = some body →
    ∃ passed, site.CallsPass id decl body edits passed ∧ ∀ one ∈ passed, ∀ callee,
      site.graph.function? callee = some one.callee → site.plan.widens callee = true →
      site.graph.calls id callee = true → one.argument = site.handleFor one.call ∨
        (one.argument = "nil" ∧ NoHandle site.graph id function site.source.text one.call.around)

theorem fileEdits_explains {seeds : List FunctionKey} (follows : HandlePlan.FollowsPaths site.graph seeds site.plan)
    (tests : ∀ id function, site.graph.function? id = some function → function.entry = some .test →
      function.isTest = true)
    (parsed : site.source.IsParsed) (done : site.fileEdits withDeferred = .ok made) : site.Explains made.edits := by
  intro decl member id function body known found production has
  obtain ⟨passed, passes⟩ := fileEdits_passes parsed member known has done
  refine ⟨passed, passes, ?_⟩
  intro one listed callee _ widens calls
  rw [passes.argument one listed, argumentAt]
  cases knows : (site.firstScope id).knows one.call.around with
  | true => exact .inl rfl
  | false =>
      refine .inr ⟨rfl, ?_⟩
      rcases HandleScope.exists_of_knows_eq_false knows with lacks | ⟨inner, literal, outer, around, shut⟩
      · rcases follows.carries_or (tests id function found) found production calls widens site.source.text
          one.call.around with carries | none
        · cases lacks.symm.trans carries
        · exact none
      · exact .goroutine around shut

end HandleSite

variable {setup : Setup} {run : Run}

/-- Where the second pass lets a call of a production file pass `nil`, there is no handle. -/
theorem Setup.propagate_nilOnly {loaded : Program} {file : Nat} {entry : ProgramFile} (parsed : run.program.IsParsed)
    (distinct : run.seeds.Nodup) (here : run.program.files[file]? = some entry)
    (production : entry.source.isTest = false) :
    let graph := CallGraph.build loaded setup.settings.handle
    let propagated := setup.propagate graph run
    ∃ middle edits, Program.Evolves (· ≠ file) run.program middle.program ∧
      propagated.2.program.source? file = some (entry.source.applied edits) ∧
      (HandleSite.taking setup graph propagated.1 middle entry).Explains edits := by
  intro graph propagated
  obtain ⟨middle, before, _, withDeferred, made, done, final⟩ := setup.propagate_batch graph here production
  refine ⟨middle, made.edits, before, final, ?_⟩
  refine HandleSite.fileEdits_explains (HandlePlan.compute_followsPaths graph run.seeds distinct) ?_
    (parsed entry (List.mem_of_getElem? here)) done
  intro id function found
  exact CallGraph.isTest_of_entry found

/-- `main` and a function that nothing calls both call `fetch`, which makes a request. -/
def idleCaller : String :=
  "package main\n\nimport \"net/http\"\n\nfunc main() \x7b\n\tfetch()\n\x7d\n\nfunc fetch() \x7b\n\thttp.Get(\"x\")\n\x7d\n\n" ++
    "func idle() \x7b\n\tfetch()\n\x7d\n"

theorem Setup.propagate_nilOnly_idleCaller :
    ∃ program, Loader.load (soleDisk idleCaller) "/" {} = .ok program ∧
      let setup := Setup.ofProgram program Catalog.builtIn {}
      let injected := setup.inject (Run.ofProgram program setup)
      let graph := CallGraph.build program "nrTxn"
      let propagated := setup.propagate graph injected
      ∃ entry, injected.program.files[0]? = some entry ∧ entry.source.isTest = false ∧
        ∃ middle edits, Program.Evolves (· ≠ 0) injected.program middle.program ∧
          propagated.2.program.source? 0 = some (entry.source.applied edits) ∧
          (HandleSite.taking setup graph propagated.1 middle entry).Explains edits := by
  have opens : isMainFile idleCaller = true := isMainFile_of_plain (by decide +kernel)
  obtain ⟨program, loaded, entry, here, production⟩ : ∃ program, Loader.load (soleDisk idleCaller) "/" {} = .ok program ∧
      ∃ entry, program.files[0]? = some entry ∧ entry.source.isTest = false :=
    ⟨_, Loader.load_soleDisk opens, soleProgram_production idleCaller⟩
  let setup := Setup.ofProgram program Catalog.builtIn {}
  have evolves := setup.inject_evolves (Run.ofProgram program setup)
  obtain ⟨entry', here', _, kept, _⟩ := evolves.files 0 entry here
  have production' : entry'.source.isTest = false := by
    rw [Source.isTest, kept.path]
    exact production
  refine ⟨program, loaded, entry', here', production', ?_⟩
  exact Setup.propagate_nilOnly (evolves.isParsed (Loader.load_isParsed loaded))
    (setup.inject_seeds_nodup program setup.detection.notes) here' production'

end TraceWeave
