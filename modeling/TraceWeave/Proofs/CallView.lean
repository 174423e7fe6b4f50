import TraceWeave.Proofs.HandleEdits

/-!
Calls of functions that take the handle, as the passes look at a file. Each such call stands in one
item of the file, and the walk over the items meets it once.
-/
namespace TraceWeave

open Go (Node Place Token)
open Go.Node (Annotated)
open Go.Place (Below)

/-- A file as the passes look at its calls. -/
structure CallView where
  graph : CallGraph
  widened : Nat → Bool
  program : Program
  file : ProgramFile

namespace CallView

def source (view : CallView) : Source := view.file.source

def imports (view : CallView) : Imports := view.program.importsOf view.source

/-- What can be seen from the body of a declaration. -/
def inDecl (view : CallView) (decl : FunctionDecl) : Surroundings :=
  .ofDecl view.program view.file.package view.imports decl

/-- What can be seen at file level. -/
def atFile (view : CallView) : Surroundings := .ofFile view.program view.file.package view.imports

/-- A call of a function that takes the handle: in the body of a declaration or, where there is none,
in a variable at file level. -/
inductive Names (view : CallView) : Option FunctionDecl → Place → GraphFunction → Prop where
  | inBody {decl : FunctionDecl} {body call : Place} {callee : GraphFunction}
      (member : decl ∈ FunctionDecl.all view.source) (found : decl.body = some body) (below : Below body call)
      (named : widenedCallee? view.graph view.widened (view.inDecl decl) view.source.text call = some callee) :
      Names view (some decl) call callee
  | atFile {item call : Place} {callee : GraphFunction} (member : item ∈ view.source.rootPlace.parts)
      (kind : item.kind = .varDeclaration) (below : Below item call)
      (named : widenedCallee? view.graph view.widened view.atFile view.source.text call = some callee) :
      Names view none call callee

/-- Such calls in the body of a declaration, in order. -/
def bodyCalls (view : CallView) (decl : FunctionDecl) : List (Place × GraphFunction) :=
  decl.body.toList.flatMap (widenedCalls view.graph view.widened (view.inDecl decl) view.source.text)

/-- Such calls in variables at file level, in order. -/
def fileCalls (view : CallView) : List (Place × GraphFunction) :=
  (view.source.rootPlace.parts.filter (·.kind == .varDeclaration)).flatMap
    (widenedCalls view.graph view.widened view.atFile view.source.text)

/-- Such calls in the declarations that are visited and at file level. -/
def visitedCalls (view : CallView) (visits : FunctionDecl → Bool) : List (Place × GraphFunction) :=
  ((FunctionDecl.all view.source).filter visits).flatMap view.bodyCalls ++ view.fileCalls

variable {view : CallView} {visits : FunctionDecl → Bool} {decl decl' : FunctionDecl} {owner : Option FunctionDecl}
  {call : Place} {callee callee' : GraphFunction}

theorem mem_widenedCalls {graph : CallGraph} {widened : Nat → Bool} {here : Surroundings} {source : String}
    {top : Place} : (call, callee) ∈ widenedCalls graph widened here source top ↔
      Below top call ∧ widenedCallee? graph widened here source call = some callee := by
  simp only [widenedCalls, List.mem_filterMap, Option.map_eq_some_iff, Prod.mk.injEq, Go.Place.mem_descendants]
  constructor
  · rintro ⟨place, below, found, named, rfl, rfl⟩
    exact ⟨below, named⟩
  · rintro ⟨below, named⟩
    exact ⟨call, below, callee, named, rfl, rfl⟩

theorem mem_bodyCalls : (call, callee) ∈ view.bodyCalls decl ↔ ∃ body, decl.body = some body ∧ Below body call ∧
    widenedCallee? view.graph view.widened (view.inDecl decl) view.source.text call = some callee := by
  simp only [bodyCalls, List.mem_flatMap, Option.mem_toList, mem_widenedCalls]

theorem mem_fileCalls : (call, callee) ∈ view.fileCalls ↔ view.Names none call callee := by
  simp only [fileCalls, List.mem_flatMap, List.mem_filter, mem_widenedCalls, beq_iff_eq]
  constructor
  · rintro ⟨item, ⟨member, kind⟩, below, named⟩
    exact .atFile member kind below named
  · rintro ⟨⟩
    rename_i item member kind below named
    exact ⟨item, ⟨member, kind⟩, below, named⟩

theorem mem_visitedCalls : (call, callee) ∈ view.visitedCalls visits ↔
    ∃ owner, view.Names owner call callee ∧ ∀ decl ∈ owner, visits decl = true := by
  rw [visitedCalls, List.mem_append, List.mem_flatMap, mem_fileCalls]
  constructor
  · rintro (⟨decl, listed, member⟩ | outside)
    · obtain ⟨member', visited⟩ := List.mem_filter.1 listed
      obtain ⟨body, found, below, named⟩ := mem_bodyCalls.1 member
      exact ⟨some decl, .inBody member' found below named, fun other same => by cases same; exact visited⟩
    · exact ⟨none, outside, fun _ contrary => by cases contrary⟩
  · rintro ⟨owner, names, visited⟩
    cases names with
    | @inBody decl body _ _ member found below named =>
        refine .inl ⟨decl, List.mem_filter.2 ⟨member, visited decl rfl⟩, ?_⟩
        exact mem_bodyCalls.2 ⟨body, found, below, named⟩
    | atFile member kind below named => exact .inr (.atFile member kind below named)

/-! A call stands in one item of the file only, and is met once. -/

theorem Names.named (names : view.Names owner call callee) :
    ∃ here, widenedCallee? view.graph view.widened here view.source.text call = some callee := by
  cases names with
  | inBody _ _ _ named => exact ⟨_, named⟩
  | atFile _ _ _ named => exact ⟨_, named⟩

/-- The item around a call. -/
theorem Names.exists_item (parsed : view.source.IsParsed) (names : view.Names owner call callee) :
    ∃ item ∈ view.source.rootPlace.parts, item.start ≤ call.start ∧ call.stop ≤ item.stop ∧
      Annotated (Token.Clear view.source.text) call.node ∧
      (∀ decl ∈ owner, FunctionDecl.ofPlace? view.source.text item = some decl ∧ item.kind.isFunction = true) ∧
      (owner = none → item.kind = .varDeclaration) := by
  cases names with
  | @inBody decl body _ _ member found below named =>
      obtain ⟨place, listed, made⟩ := List.mem_filterMap.1 member
      have annotated := FunctionDecl.annotated_body parsed member found
      obtain ⟨_, inside, _⟩ := FunctionDecl.body_spec parsed member found
      have within := below.within annotated
      have outer := (FunctionDecl.annotated_of_mem_parts parsed (FunctionDecl.of_mem_all member).1).shaped.chain.mem inside
      have same := FunctionDecl.ofPlace?_place made
      subst same
      refine ⟨decl.place, listed, Nat.le_trans outer.1 within.1, Nat.le_trans within.2 outer.2.2,
        below.annotated annotated, ?_, fun contrary => by cases contrary⟩
      intro other same
      cases same
      exact ⟨made, (FunctionDecl.of_mem_all member).2.1⟩
  | @atFile item _ _ member kind below named =>
      have annotated := FunctionDecl.annotated_of_mem_parts parsed member
      have within := below.within annotated
      exact ⟨item, member, within.1, within.2, below.annotated annotated, (fun _ contrary => by cases contrary),
        fun _ => kind⟩

/-- A call in two items is in one. -/
theorem item_unique (parsed : view.source.IsParsed) {item item' : Place} (member : item ∈ view.source.rootPlace.parts)
    (member' : item' ∈ view.source.rootPlace.parts) (wide : call.start < call.stop) (starts : item.start ≤ call.start)
    (stops : call.stop ≤ item.stop) (starts' : item'.start ≤ call.start) (stops' : call.stop ≤ item'.stop) :
    item = item' := by
  have order := FunctionDecl.parts_pairwise parsed
  have apart : view.source.rootPlace.parts.Pairwise fun a b => a = b ∨ a.stop ≤ b.start ∨ b.stop ≤ a.start :=
    order.imp fun before => .inr (.inl before)
  have mirrored : view.source.rootPlace.parts.Pairwise fun a b => b = a ∨ b.stop ≤ a.start ∨ a.stop ≤ b.start :=
    order.imp fun before => .inr (.inr before)
  rcases apart.forall_of_forall_of_flip (fun _ _ => .inl rfl) mirrored member member' with same | before | after
  · exact same
  · omega
  · omega

theorem Names.owner_unique {owner' : Option FunctionDecl} (parsed : view.source.IsParsed)
    (names : view.Names owner call callee) (names' : view.Names owner' call callee') : owner = owner' := by
  obtain ⟨item, member, starts, stops, annotated, function, outside⟩ := names.exists_item parsed
  obtain ⟨item', member', starts', stops', _, function', outside'⟩ := names'.exists_item parsed
  obtain ⟨here, named⟩ := names.named
  have wide := annotated.call_wide (kind_of_widenedCallee? named)
  cases item_unique parsed member member' wide starts stops starts' stops'
  cases owner with
  | none =>
      cases owner' with
      | none => rfl
      | some decl' =>
          have contrary := (function' decl' rfl).2
          rw [outside rfl] at contrary
          cases contrary
  | some decl =>
      cases owner' with
      | none =>
          have contrary := (function decl rfl).2
          rw [outside' rfl] at contrary
          cases contrary
      | some decl' => exact (function decl rfl).1.symm.trans (function' decl' rfl).1

/-- Calls below one place are met once: a call is never inside itself, and calls beside each other differ. -/
theorem widenedCalls_pairwise {sound : Nat → Prop} {graph : CallGraph} {widened : Nat → Bool} {here : Surroundings}
    {source : String} {top : Place} (annotated : Annotated sound top.node) :
    (widenedCalls graph widened here source top).Pairwise fun a b => a.1 ≠ b.1 := by
  unfold widenedCalls
  rw [List.pairwise_filterMap]
  refine (Go.Place.descendants_pairwise annotated).imp_of_mem ?_
  rintro a b met _ order ⟨call, callee⟩ first ⟨call', callee'⟩ second same
  obtain ⟨found, named, made⟩ := Option.map_eq_some_iff.1 first
  obtain ⟨_, _, made'⟩ := Option.map_eq_some_iff.1 second
  cases made
  cases made'
  have same : a = b := same
  subst same
  rcases order with inside | beside
  · exact Go.Place.not_inside_self a inside
  · have wide := ((Go.Place.mem_descendants.1 met).annotated annotated).call_wide (kind_of_widenedCallee? named)
    exact absurd beside (Nat.not_le.2 wide)

theorem bodyCalls_pairwise (parsed : view.source.IsParsed) (member : decl ∈ FunctionDecl.all view.source) :
    (view.bodyCalls decl).Pairwise fun a b => a.1 ≠ b.1 := by
  unfold bodyCalls
  cases found : decl.body with
  | none => exact .nil
  | some body =>
      rw [Option.toList_some, List.flatMap_singleton]
      exact widenedCalls_pairwise (FunctionDecl.annotated_body parsed member found)

/-- A call in the body of a declaration takes up room in it. -/
theorem bodyCalls_within (parsed : view.source.IsParsed) (member : decl ∈ FunctionDecl.all view.source)
    (listed : (call, callee) ∈ view.bodyCalls decl) :
    decl.place.start ≤ call.start ∧ call.start < call.stop ∧ call.stop ≤ decl.place.stop := by
  obtain ⟨body, found, below, named⟩ := mem_bodyCalls.1 listed
  obtain ⟨item, _, starts, stops, annotated, function, _⟩ :=
    Names.exists_item parsed (.inBody member found below named)
  have place := FunctionDecl.ofPlace?_place (function decl rfl).1
  rw [place]
  exact ⟨starts, annotated.call_wide (kind_of_widenedCallee? named), stops⟩

theorem fileCalls_pairwise (parsed : view.source.IsParsed) : view.fileCalls.Pairwise fun a b => a.1 ≠ b.1 := by
  unfold fileCalls
  rw [List.pairwise_flatMap]
  constructor
  · intro item listed
    exact widenedCalls_pairwise (FunctionDecl.annotated_of_mem_parts parsed (List.mem_filter.1 listed).1)
  · refine ((FunctionDecl.parts_pairwise parsed).filter _).imp_of_mem ?_
    rintro a b listed listed' before ⟨call, callee⟩ met ⟨call', callee'⟩ met' same
    have annotated := FunctionDecl.annotated_of_mem_parts parsed (List.mem_filter.1 listed).1
    have annotated' := FunctionDecl.annotated_of_mem_parts parsed (List.mem_filter.1 listed').1
    obtain ⟨below, named⟩ := mem_widenedCalls.1 met
    obtain ⟨below', _⟩ := mem_widenedCalls.1 met'
    have within := below.within annotated
    have within' := below'.within annotated'
    have wide : call.start < call.stop := (below.annotated annotated).call_wide (kind_of_widenedCallee? named)
    have same : call = call' := same
    subst same
    omega

/-- Every call is met once. -/
theorem visitedCalls_nodup (parsed : view.source.IsParsed) (visits : FunctionDecl → Bool) :
    ((view.visitedCalls visits).map Prod.fst).Nodup := by
  rw [List.Nodup, List.pairwise_map, visitedCalls, List.pairwise_append, List.pairwise_flatMap]
  refine ⟨⟨?_, ?_⟩, fileCalls_pairwise parsed, ?_⟩
  · exact fun decl listed => bodyCalls_pairwise parsed (List.mem_filter.1 listed).1
  · refine ((FunctionDecl.all_pairwise parsed).filter _).imp_of_mem ?_
    rintro a b listed listed' before ⟨call, callee⟩ met ⟨call', callee'⟩ met' same
    have within := bodyCalls_within parsed (List.mem_filter.1 listed).1 met
    have within' := bodyCalls_within parsed (List.mem_filter.1 listed').1 met'
    have same : call = call' := same
    subst same
    omega
  · rintro ⟨call, callee⟩ met ⟨call', callee'⟩ met' same
    obtain ⟨decl, listed, met⟩ := List.mem_flatMap.1 met
    obtain ⟨body, found, below, named⟩ := mem_bodyCalls.1 met
    have same : call = call' := same
    subst same
    have contrary := Names.owner_unique parsed (.inBody (List.mem_filter.1 listed).1 found below named)
      (mem_fileCalls.1 met')
    cases contrary

end CallView
end TraceWeave
