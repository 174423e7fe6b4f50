import TraceWeave.Proofs.Handover
import TraceWeave.Proofs.HandleUse
import TraceWeave.Proofs.Ink

/-!
When the second pass has nothing to do with a file: no declaration in it takes the handle anew, no call
in it names a function that does, and the requests in it that still wait are where the handle is not
known.
-/
namespace TraceWeave

open Go (Node Place Token)
open Go.Node (Annotated)
open Go.Place (Below)

namespace HandleSite

variable {site : HandleSite} {isMain : Bool} {place top : Place} {view : StatementView}
  {state next : HandleEdits × HandleScope} {supply supply' : NameSupply}

/-- Notes are exact while statements are looked at. -/
theorem deferredStatement_exact (builtIn : site.setup.catalog = Catalog.builtIn)
    (annotated : Annotated (Token.Clear site.source.text) top.node) (closed : HandleScope.Closed top)
    (below : Below top place) {scope : HandleScope} (exact : HandleScope.Exact top state.2)
    (grows : scope.Grows state.2)
    (done : site.deferredStatement isMain state (place, view) supply = (.ok next, supply')) :
    HandleScope.Exact top next.2 ∧ scope.Grows next.2 ∧ ∃ new, next.1.edits = state.1.edits ++ new ∧
      (new = [] → state.2.Quiet next.2) ∧
      (new = [] ↔ (site.Waits isMain view → scope.knows place.around = false)) := by
  rcases deferredStatement_cases builtIn done with ⟨idle, rfl⟩ | ⟨waits, moved, _, new, edits, code⟩
  · exact ⟨exact, grows, [], (List.append_nil _).symm, fun _ => .refl _, by simp [idle]⟩
  · have nothing : new = [] ↔ (state.2.availableAt place).1 = false := by
      rcases code with ⟨no, rfl⟩ | ⟨yes, _, _, rfl⟩
      · simp [no]
      · simp [yes]
    have answered := HandleScope.availableAt_exactly annotated closed exact below
    rw [moved]
    refine ⟨answered.exact, grows.trans answered.grows, new, edits, ?_, ?_⟩
    · exact fun empty => answered.quiet (nothing.1 empty)
    · rw [nothing, answered.answer, grows.knows]
      exact ⟨fun no _ => no, fun no => no waits⟩

/-- Statements of a body with their places. -/
theorem below_of_mem_views {pair : Place × StatementView} (member : pair ∈ top.sequences.flatMap site.viewsOf) :
    Below top pair.1 := by
  obtain ⟨statements, listed, paired⟩ := List.mem_flatMap.1 member
  obtain ⟨block, met, rfl⟩ := List.mem_map.1 listed
  have below := Go.Place.mem_descendants.1 (List.mem_filter.1 met).1
  exact below.trans (below_of_mem_parts (mem_viewsOf paired).1)

/-- Where the handle is not known, no code is added, and nothing is noted that leads to an edit. -/
theorem deferredEdits_idle (builtIn : site.setup.catalog = Catalog.builtIn)
    (annotated : Annotated (Token.Clear site.source.text) top.node) (closed : HandleScope.Closed top)
    {scope : HandleScope} {decl : FunctionDecl} {result : HandleEdits × HandleScope}
    (exact : HandleScope.Exact top scope) (done : site.deferredEdits isMain scope decl top = .ok result)
    (unknown : ∀ pair ∈ top.sequences.flatMap site.viewsOf,
      site.Waits isMain pair.2 → scope.knows pair.1.around = false) :
    result.1.edits = [] ∧ scope.Quiet result.2 := by
  unfold deferredEdits at done
  generalize NameSupply.forFunction site.source site.imports decl.place.node = supply at done
  have run : (top.sequences.flatMap site.viewsOf).foldlM (site.deferredStatement isMain) ({}, scope) supply =
      (.ok result, _) := Prod.ext done rfl
  have keeps : ∀ pair ∈ top.sequences.flatMap site.viewsOf, ∀ (state : HandleEdits × HandleScope) supply next supply',
      (HandleScope.Exact top state.2 ∧ scope.Grows state.2 ∧ state.1.edits = [] ∧ scope.Quiet state.2) →
      site.deferredStatement isMain state pair supply = (.ok next, supply') →
      HandleScope.Exact top next.2 ∧ scope.Grows next.2 ∧ next.1.edits = [] ∧ scope.Quiet next.2 := by
    rintro ⟨place, view⟩ member state supply next supply' ⟨right, grows, empty, silent⟩ stepped
    obtain ⟨right', grows', new, edits, silent', nothing⟩ :=
      deferredStatement_exact builtIn annotated closed (below_of_mem_views member) right grows stepped
    have none := nothing.2 (unknown _ member)
    refine ⟨right', grows', ?_, silent.trans (silent' none)⟩
    rw [edits, empty, none, List.append_nil]
  exact (Naming.foldlM_keeps keeps ⟨exact, .refl _, rfl, .refl _⟩ run).2.2

/-- Where no code is added, the handle is not known. -/
theorem unknown_of_deferredEdits (builtIn : site.setup.catalog = Catalog.builtIn)
    (annotated : Annotated (Token.Clear site.source.text) top.node) (closed : HandleScope.Closed top)
    {scope : HandleScope} {decl : FunctionDecl} {result : HandleEdits × HandleScope}
    (exact : HandleScope.Exact top scope) (done : site.deferredEdits isMain scope decl top = .ok result)
    (empty : result.1.edits = []) {pair : Place × StatementView} (member : pair ∈ top.sequences.flatMap site.viewsOf)
    (waits : site.Waits isMain pair.2) : scope.knows pair.1.around = false := by
  unfold deferredEdits at done
  generalize NameSupply.forFunction site.source site.imports decl.place.node = supply at done
  have run : (top.sequences.flatMap site.viewsOf).foldlM (site.deferredStatement isMain) ({}, scope) supply =
      (.ok result, _) := Prod.ext done rfl
  by_contra known
  have each : ∀ pair ∈ top.sequences.flatMap site.viewsOf, ∀ (state : HandleEdits × HandleScope) supply next supply',
      (HandleScope.Exact top state.2 ∧ scope.Grows state.2) →
      site.deferredStatement isMain state pair supply = (.ok next, supply') →
      (HandleScope.Exact top next.2 ∧ scope.Grows next.2) ∧ (state.1.edits ≠ [] → next.1.edits ≠ []) := by
    rintro ⟨place, view⟩ member state supply next supply' ⟨right, grows⟩ stepped
    obtain ⟨right', grows', new, edits, _⟩ :=
      deferredStatement_exact builtIn annotated closed (below_of_mem_views member) right grows stepped
    refine ⟨⟨right', grows'⟩, fun some contrary => some ?_⟩
    rw [edits] at contrary
    exact (List.append_eq_nil_iff.1 contrary).1
  refine Naming.foldlM_meets member each ?_ ⟨exact, .refl _⟩ run empty
  rintro state supply next supply' ⟨right, grows⟩ stepped contrary
  obtain ⟨_, _, new, edits, _, nothing⟩ :=
    deferredStatement_exact builtIn annotated closed (below_of_mem_views member) right grows stepped
  rw [edits] at contrary
  exact known (nothing.1 (List.append_eq_nil_iff.1 contrary).2 waits)

/-! Whole declarations and files. -/

/-- Nothing is left to do in a declaration. -/
structure DeclSettled (site : HandleSite) (withDeferred : Bool) (decl : FunctionDecl) (id : Nat) (body : Place) :
    Prop where
  /-- The function does not take the handle anew. -/
  keeps : site.plan.widens id = false
  /-- No call names a function that does. -/
  calls : site.view.bodyCalls decl = []
  /-- A statement waits only where the handle is not known. -/
  unknown : withDeferred = true → site.seeds.contains (decl.key site.package) = true → site.plan.carries id = true →
    ∀ pair ∈ body.sequences.flatMap site.viewsOf,
      site.Waits ((site.graph.function? id).bind (·.entry) == some .main) pair.2 →
        (site.firstScope id).knows pair.1.around = false

variable {decl : FunctionDecl} {id : Nat} {body : Place} {withDeferred : Bool} {made : HandleEdits}

theorem firstScope_exact (site : HandleSite) (id : Nat) (top : Place) : HandleScope.Exact top (site.firstScope id) := by
  simp [HandleScope.Exact, firstScope]

/-- Without calls of functions that take the handle nothing is asked about calls. -/
theorem callEdits_of_nil {here : Surroundings} {scope : HandleScope}
    (nothing : widenedCalls site.graph site.plan.widens here site.source.text body = []) :
    site.callEdits here scope body = ([], scope) := by
  refine foldl_idle fun call member => ?_
  have missing := List.filterMap_eq_nil_iff.1 nothing call member
  unfold callEdit
  rw [Option.map_eq_none_iff.1 missing]

/-- Nothing was noted, so nothing is made for the function or for literals. -/
theorem edits_of_quiet {scope : HandleScope} (quiet : (site.firstScope id).Quiet scope) (entry : Option Entry)
    (node : Node) : (site.creationEdits scope entry node).edits = [] ∧ site.literalEdits scope = [] := by
  have used : scope.used = false := quiet.used
  have launched : scope.launched = [] := quiet.launched
  have handlers : scope.handlers = [] := quiet.handlers
  refine ⟨?_, ?_⟩
  · rw [creationEdits, used]
    rfl
  · rw [literalEdits, HandleScope.launchedInOrder, HandleScope.handlersInOrder, launched, handlers]
    simp

/-- With calls of functions that take the handle there are edits. -/
theorem widenedCalls_of_callEdits {here : Surroundings} {scope : HandleScope}
    (annotated : Annotated (Token.Clear site.source.text) body.node) (closed : HandleScope.Closed body)
    (tracks : scope.Tracks body) (nothing : (site.callEdits here scope body).1 = []) :
    widenedCalls site.graph site.plan.widens here site.source.text body = [] := by
  obtain ⟨passed, planned⟩ := site.foldl_callEdit_planned here annotated closed
    (show (([], scope) : List Edit × HandleScope).2.Tracks body from tracks)
    (fun place met => Go.Place.mem_descendants.1 met)
  have edits : passed.map Passed.edit = [] := by
    have same := planned.edits
    rw [List.nil_append] at same
    exact same.symm.trans nothing
  rw [List.map_eq_nil_iff.1 edits] at planned
  exact planned.targets.symm

theorem signatureEdits_nil_iff {list : Place} (has : decl.parameters = some list) :
    (site.signatureEdits id decl).edits = [] ↔ site.plan.widens id = false := by
  rw [signatureEdits, has]
  cases site.plan.widens id with
  | false => simp
  | true => simp

/-- The five parts of the edits of a declaration. -/
theorem parts_nil_iff {signature creation literals calls segments : List Edit} :
    signature ++ creation ++ literals ++ calls ++ segments = [] ↔
      signature = [] ∧ creation = [] ∧ literals = [] ∧ calls = [] ∧ segments = [] := by
  simp only [List.append_eq_nil_iff, and_assoc]

/-- No edit is planned for a declaration exactly if nothing is left to do in it. -/
theorem declEdits_nil_iff (fits : site.imports = site.program.importsOf site.source) (parsed : site.source.IsParsed)
    (builtIn : site.setup.catalog = Catalog.builtIn) (member : decl ∈ FunctionDecl.all site.source)
    (known : site.graph.lookup? (decl.key site.package) = some id) (found : decl.body = some body)
    (done : site.declEdits withDeferred decl = .ok made) :
    made.edits = [] ↔ site.DeclSettled withDeferred decl id body := by
  have annotated := FunctionDecl.annotated_body parsed member found
  have closed := FunctionDecl.closed_body member found
  obtain ⟨list, has, _, _⟩ := FunctionDecl.exists_parameters parsed member
  have same : site.view.bodyCalls decl = widenedCalls site.graph site.plan.widens
      (.ofDecl site.program site.package site.imports decl) site.source.text body := by
    rw [CallView.bodyCalls, found, Option.toList_some, List.flatMap_singleton, fits]
    rfl
  unfold declEdits at done
  rw [known, found] at done
  dsimp only at done
  by_cases nothing : site.view.bodyCalls decl = []
  · rw [callEdits_of_nil (same.symm.trans nothing)] at done
    dsimp only at done
    split at done
    · rename_i waiting
      simp only [Bool.and_eq_true] at waiting
      obtain ⟨result, deferred, done⟩ := exists_of_bind_eq_ok done
      cases done
      constructor
      · intro empty
        obtain ⟨signature, _, _, _, segments⟩ := parts_nil_iff.1 empty
        refine ⟨(signatureEdits_nil_iff has).1 signature, nothing, fun _ _ _ pair listed waits => ?_⟩
        exact unknown_of_deferredEdits builtIn annotated closed (site.firstScope_exact id body) deferred segments listed
          waits
      · intro settled
        have idle := deferredEdits_idle builtIn annotated closed (site.firstScope_exact id body) deferred
          (settled.unknown waiting.1.1 waiting.1.2 waiting.2)
        have quiet := edits_of_quiet idle.2 ((site.graph.function? id).bind (·.entry)) body.node
        exact parts_nil_iff.2 ⟨(signatureEdits_nil_iff has).2 settled.keeps, quiet.1, quiet.2, rfl, idle.1⟩
    · rename_i waiting
      cases done
      have quiet := edits_of_quiet (.refl (site.firstScope id)) ((site.graph.function? id).bind (·.entry)) body.node
      constructor
      · intro empty
        obtain ⟨signature, _⟩ := parts_nil_iff.1 empty
        refine ⟨(signatureEdits_nil_iff has).1 signature, nothing, fun yes seed carries => ?_⟩
        exact absurd (by rw [yes, seed, carries]; rfl) waiting
      · intro settled
        exact parts_nil_iff.2 ⟨(signatureEdits_nil_iff has).2 settled.keeps, quiet.1, quiet.2, rfl, rfl⟩
  · refine ⟨fun empty => absurd ?_ nothing, fun settled => absurd settled.calls nothing⟩
    rw [same]
    refine widenedCalls_of_callEdits annotated closed (site.firstScope_tracks id body) ?_
    split at done
    · obtain ⟨result, _, done⟩ := exists_of_bind_eq_ok done
      cases done
      exact (parts_nil_iff.1 empty).2.2.2.1
    · cases done
      exact (parts_nil_iff.1 empty).2.2.2.1

/-- Nothing is left to do in a file. -/
structure FileSettled (site : HandleSite) (withDeferred : Bool) : Prop where
  decls : ∀ decl ∈ FunctionDecl.all site.source, ∀ id body, site.graph.lookup? (decl.key site.package) = some id →
    decl.body = some body → site.DeclSettled withDeferred decl id body
  calls : site.view.fileCalls = []

theorem fileLevelEdits_nil_iff {view : CallView} (parsed : view.source.IsParsed) :
    fileLevelEdits view.graph view.widened view.atFile view.source = [] ↔ view.fileCalls = [] := by
  obtain ⟨passed, edits, targets, _⟩ := fileLevelEdits_handed parsed
  rw [edits, targets, List.map_eq_nil_iff, List.map_eq_nil_iff]

/-- No edit is planned for a file exactly if nothing is left to do in it. -/
theorem fileEdits_nil_iff (fits : site.imports = site.program.importsOf site.source) (parsed : site.source.IsParsed)
    (builtIn : site.setup.catalog = Catalog.builtIn) (done : site.fileEdits withDeferred = .ok made) :
    made.edits = [] ↔ site.FileSettled withDeferred := by
  unfold fileEdits at done
  obtain ⟨parts, mapped, done⟩ := exists_of_bind_eq_ok done
  cases done
  have atFile : fileLevelEdits site.graph site.plan.widens (.ofFile site.program site.package site.imports)
      site.source = [] ↔ site.view.fileCalls = [] := by
    rw [fits]
    exact fileLevelEdits_nil_iff (show site.view.source.IsParsed from parsed)
  rw [List.append_eq_nil_iff, atFile, List.flatMap_eq_nil_iff]
  constructor
  · rintro ⟨each, calls⟩
    refine ⟨?_, calls⟩
    intro decl member id body known found
    obtain ⟨part, listed, planned⟩ := exists_mem_of_mapM mapped member
    exact (declEdits_nil_iff fits parsed builtIn member known found planned).1 (each part listed)
  · rintro ⟨each, calls⟩
    refine ⟨?_, calls⟩
    intro part listed
    obtain ⟨decl, member, planned⟩ := exists_of_mem_mapM mapped listed
    rcases declEdits_planned parsed builtIn member planned with ⟨nothing, _⟩ | ⟨id, body, _, _, _, decl'⟩
    · exact nothing
    · exact (declEdits_nil_iff fits parsed builtIn member decl'.known decl'.found planned).2
        (each decl member id body decl'.known decl'.found)

/-! Every edit adds something to see. -/

theorem Accounted.gains {batch : List Edit} {edit : Edit} (accounted : site.Accounted batch edit)
    (shows : Text.Shows site.handle) : Edit.Gains site.source.text edit := by
  cases accounted with
  | parameter list => exact Edit.gains_addParameter ((((shows.before _).before _).before _))
  | creation body value more ends => exact Edit.gains_addAtStart ((shows.before _).before _) more
  | nothing list index => exact Edit.gains_addToArguments (by decide)
  | argument below has index text uses known =>
      rcases uses with rfl | rfl
      · exact Edit.gains_addToArguments shows
      · exact Edit.gains_addToArguments (shows.before _)
  | segment below part name function text uses known =>
      subst uses
      exact Edit.gains_addBefore ((((shows.after _).before _).before _).before _)
  | finish statement name => exact Edit.gains_addAfter (Text.Shows.after (by decide) _)

end HandleSite

theorem testCallEdits_gains {view : CallView} (parsed : view.source.IsParsed) :
    ∀ edit ∈ testCallEdits view.graph view.widened view.program view.file, Edit.Gains view.source.text edit := by
  obtain ⟨passed, edits, _, each⟩ := testCallEdits_handed parsed ""
  rw [edits]
  intro edit member
  obtain ⟨one, listed, rfl⟩ := List.mem_map.1 member
  rw [Passed.edit, each one listed]
  exact Edit.gains_addToArguments (by decide)

/-- Nothing is planned for a test file exactly if no call in it names a function that took the handle. -/
theorem testCallEdits_nil_iff {view : CallView} (parsed : view.source.IsParsed) :
    testCallEdits view.graph view.widened view.program view.file = [] ↔
      ∀ owner call callee, ¬ view.Names owner call callee := by
  obtain ⟨passed, edits, handed, _⟩ := testCallEdits_handed parsed ""
  rw [edits, List.map_eq_nil_iff, List.eq_nil_iff_forall_not_mem]
  constructor
  · intro nothing owner call callee names
    obtain ⟨one, listed, _⟩ := (handed.received owner call callee names).2 fun _ _ => rfl
    exact nothing one listed
  · intro nothing one listed
    obtain ⟨owner, names⟩ := handed.named one listed
    exact nothing owner _ _ names

end TraceWeave
