import Mathlib.Data.List.Nodup
import TraceWeave.Proofs.Handover
import TraceWeave.Proofs.Leaves

/-!
The second pass writes between statements, into lists and at the start of blocks. Only a block without
statements gives way to new text, and no such block is opened twice: the body of a declaration is not
inside a literal of its own, and a literal that makes the handle is noted once.
-/
namespace TraceWeave

open Go (Node Place Token Kind)
open Go.Node (Annotated)
open Go.Place (Below Inside)

theorem beside_of_addArgument? {source : Source} {call : Place} {index : Nat} {text : String} {edit : Edit}
    (parsed : source.IsParsed) (below : Below source.rootPlace call) (is : call.kind = .callExpression)
    (found : Edit.addArgument? call.node index text = some edit) : source.Beside .block edit := by
  obtain ⟨list, present, kind⟩ := (below.annotated parsed.annotated).argumentList is
  rw [Edit.addArgument?, present] at found
  cases found
  have inside : Below source.rootPlace (call.inside list) :=
    below.inside (List.mem_filter.2 ⟨List.mem_of_find?_eq_some present, by rw [kind]; rfl⟩)
  exact Source.beside_addToArguments parsed inside kind index text

theorem fileLevelEdits_beside {graph : CallGraph} {widened : Nat → Bool} {here : Surroundings} {source : Source}
    (parsed : source.IsParsed) : ∀ edit ∈ fileLevelEdits graph widened here source, source.Beside .block edit := by
  intro edit planned
  obtain ⟨item, listed, planned⟩ := List.mem_flatMap.1 planned
  obtain ⟨call, met, planned⟩ := List.mem_filterMap.1 planned
  obtain ⟨callee, named, planned⟩ := Option.bind_eq_some_iff.1 planned
  have below := (below_of_mem_parts (List.mem_filter.1 listed).1).trans (Go.Place.mem_descendants.1 met)
  exact beside_of_addArgument? parsed below (kind_of_widenedCallee? named) planned

namespace HandleSite

variable {site : HandleSite} {decl : FunctionDecl} {id : Nat} {body top : Place} {edits : List Edit}
  {scope : HandleScope} {passed : List Passed} {segments : List Edit}

theorem launchedEdits_beside {found : LaunchedLiteral} {around : List Node} (parsed : site.source.IsParsed)
    (below : Below site.source.rootPlace top) (apart : top.node.kind ≠ .funcLiteral)
    (is : found.literal.kind = .funcLiteral) (inside : Below top ⟨found.literal, around⟩)
    (launched : launchOf? found.literal around = some found.launch) :
    ∀ edit ∈ (site.launchedEdits found).edits, site.source.Beside .block edit := by
  intro edit planned
  have literal := below.trans inside
  rcases List.mem_append.1 planned with parameter | argument
  · obtain ⟨list, has, kind⟩ := (literal.annotated parsed.annotated).literalParameters is
    rw [has] at parameter
    cases List.mem_singleton.1 parameter
    have place := literal.inside (List.mem_filter.2 ⟨List.mem_of_find?_eq_some has, by rw [kind]; rfl⟩)
    exact Source.beside_addParameter parsed place kind _
  · obtain ⟨outer, _, call, kind⟩ := below_launch inside apart is launched
    exact beside_of_addArgument? parsed (below.trans call) kind (Option.mem_toList.1 argument)

theorem Segment.beside {edit : Edit} (parsed : site.source.IsParsed) (below : Below site.source.rootPlace top)
    (segment : site.Segment top scope edit) : site.source.Beside .block edit := by
  have solid : ∀ {block statement : Place}, statement ∈ block.parts → statement.kind ≠ .comment := by
    intro block statement part
    obtain ⟨node, listed, rfl⟩ := List.mem_map.1 part
    exact (Edit.mem_parts listed).2.2
  cases segment with
  | start inside _ part =>
      exact Source.beside_addBefore parsed ((below.trans inside).trans (below_of_mem_parts part)) (solid part) _
  | stop inside part =>
      exact Source.beside_addAfter parsed (by simp) ((below.trans inside).trans (below_of_mem_parts part)) (solid part) _

theorem passed_beside (parsed : site.source.IsParsed) (below : Below site.source.rootPlace body)
    (planned : site.DeclPlanned decl id body edits scope passed segments) :
    ∀ edit ∈ passed.map Passed.edit, site.source.Beside .block edit := by
  intro edit member
  obtain ⟨one, listed, rfl⟩ := List.mem_map.1 member
  have target : one.target ∈ passed.map Passed.target := List.mem_map_of_mem listed
  rw [planned.targets] at target
  obtain ⟨call, met, named⟩ := List.mem_filterMap.1 target
  obtain ⟨callee, named, same⟩ := Option.map_eq_some_iff.1 named
  have place : call = one.call := congrArg Prod.fst same
  subst place
  have inside := below.trans (Go.Place.mem_descendants.1 met)
  have added : Edit.addArgument? one.call.node one.callee.handleIndex one.argument = some one.edit := by
    rw [Edit.addArgument?, (planned.passes one listed).listed.found]
    rfl
  exact beside_of_addArgument? parsed inside (kind_of_widenedCallee? named) added

/-! Blocks that are opened. -/

/-- The body of a literal below a place. -/
def LiteralBody (top : Place) (literal : Node) (leaf : Place) : Prop :=
  ∃ around, leaf.around = literal :: around ∧ leaf.node ∈ literal.named ∧ Below top ⟨literal, around⟩

theorem LiteralBody.below {literal : Node} {leaf : Place} (is : LiteralBody top literal leaf) : Below top leaf := by
  obtain ⟨around, same, member, below⟩ := is
  have inside := below.inside member
  rwa [Place.inside, ← same] at inside

theorem LiteralBody.ne_top {literal : Node} {leaf : Place} (is : LiteralBody top literal leaf) : leaf ≠ top := by
  rintro rfl
  obtain ⟨around, same, member, below⟩ := is
  refine Go.Place.not_inside_self ⟨literal, around⟩ ⟨leaf.node, member, ?_⟩
  rwa [Place.inside, ← same]

theorem handlers_laid {found : List HandlerLiteral} (parsed : site.source.IsParsed)
    (below : Below site.source.rootPlace top)
    (each : ∀ one ∈ found, one.literal.kind = .funcLiteral ∧ ∃ around, Below top ⟨one.literal, around⟩)
    (once : found.Pairwise fun a b => a.literal.isSame b.literal = false) :
    ∃ leaves, site.source.Laid .block ((found.map site.handlerEdits).flatMap (·.edits)) leaves ∧ leaves.Nodup ∧
      ∀ leaf ∈ leaves, ∃ one ∈ found, LiteralBody top one.literal leaf := by
  induction found with
  | nil => exact ⟨[], .nil, .nil, by simp⟩
  | cons one found ih =>
      obtain ⟨⟨is, around, inside⟩, each⟩ := List.forall_mem_cons.1 each
      obtain ⟨apart, once⟩ := List.pairwise_cons.1 once
      obtain ⟨leaves, laid, differ, bodies⟩ := ih each once
      have literal := below.trans inside
      obtain ⟨body, has, kind⟩ := (literal.annotated parsed.annotated).literalBody is
      have member : body ∈ one.literal.named :=
        List.mem_filter.2 ⟨List.mem_of_find?_eq_some has, by rw [kind]; rfl⟩
      obtain ⟨opened, laid', few⟩ := Source.laid_addAtStart parsed (literal.inside member) kind [site.fromRequest one.request]
      have made : (site.handlerEdits one).edits =
          [Edit.addAtStart site.source.text body [site.fromRequest one.request]] := by
        rw [handlerEdits, has]
      refine ⟨opened ++ leaves, ?_, ?_, ?_⟩
      · rw [List.map_cons, List.flatMap_cons, made]
        exact laid'.append laid
      · refine List.nodup_append.2 ⟨few.nodup (List.nodup_singleton _), differ, ?_⟩
        rintro leaf here _ later rfl
        cases List.mem_singleton.1 (few.subset here)
        obtain ⟨other, listed, _, same, _⟩ := bodies _ later
        have equal : one.literal = other.literal := (List.cons.inj same).1
        have contrary := apart other listed
        rw [equal, Node.isSame_refl] at contrary
        cases contrary
      · intro leaf listed
        rcases List.mem_append.1 listed with here | later
        · cases List.mem_singleton.1 (few.subset here)
          exact ⟨one, List.mem_cons_self, around, rfl, member, inside⟩
        · obtain ⟨other, listed, body⟩ := bodies leaf later
          exact ⟨other, List.mem_cons_of_mem _ listed, body⟩

theorem creationEdits_laid (scope : HandleScope) (entry : Option Entry) (parsed : site.source.IsParsed)
    (below : Below site.source.rootPlace body) (is : body.kind = .block) :
    ∃ leaves, site.source.Laid .block (site.creationEdits scope entry body.node).edits leaves ∧ leaves.Sublist [body] := by
  unfold creationEdits
  split
  · dsimp only
    split
    · exact ⟨[], .nil, List.nil_sublist _⟩
    · exact Source.laid_addAtStart parsed below is _
  · exact ⟨[], .nil, List.nil_sublist _⟩

theorem literalEdits_laid (parsed : site.source.IsParsed) (below : Below site.source.rootPlace top)
    (apart : top.node.kind ≠ .funcLiteral) (tracks : scope.Tracks top) :
    ∃ leaves, site.source.Laid .block (site.literalEdits scope) leaves ∧ leaves.Nodup ∧
      ∀ leaf ∈ leaves, ∃ literal, LiteralBody top literal leaf := by
  unfold literalEdits
  rw [List.flatMap_append]
  have launched : ∀ edit ∈ (scope.launchedInOrder.map site.launchedEdits).flatMap (·.edits),
      site.source.Beside .block edit := by
    intro edit planned
    obtain ⟨part, listed, inside⟩ := List.mem_flatMap.1 planned
    obtain ⟨found, noted, rfl⟩ := List.mem_map.1 listed
    obtain ⟨is, around, place, judged, _⟩ := tracks.launched found (List.mem_mergeSort.1 noted)
    exact launchedEdits_beside parsed below apart is place (launchOf?_of_judge judged) edit inside
  have each : ∀ one ∈ scope.handlersInOrder, one.literal.kind = .funcLiteral ∧
      ∃ around, Below top ⟨one.literal, around⟩ := by
    intro one noted
    obtain ⟨is, around, place, _⟩ := tracks.handlers one (List.mem_mergeSort.1 noted)
    exact ⟨is, around, place⟩
  have once : scope.handlersInOrder.Pairwise fun a b => a.literal.isSame b.literal = false := by
    refine (List.mergeSort_perm scope.handlers _).symm.pairwise tracks.once fun {a b} differ => ?_
    rw [Node.isSame_comm]
    exact differ
  obtain ⟨leaves, laid, differ, bodies⟩ := handlers_laid parsed below each once
  refine ⟨[] ++ leaves, (Source.Laid.of_beside launched).append laid, differ, fun leaf listed => ?_⟩
  obtain ⟨one, _, body⟩ := bodies leaf listed
  exact ⟨_, body⟩

/-- The plan for a declaration: blocks in it that have no statements are opened once. -/
theorem DeclPlanned.laid (parsed : site.source.IsParsed) (member : decl ∈ FunctionDecl.all site.source)
    (planned : site.DeclPlanned decl id body edits scope passed segments) :
    ∃ leaves, site.source.Laid .block edits leaves ∧ leaves.Nodup ∧ ∀ leaf ∈ leaves, Below body leaf := by
  have below := FunctionDecl.below_body parsed member planned.found
  have kind := (FunctionDecl.body_spec parsed member planned.found).1
  have signature : ∀ edit ∈ (site.signatureEdits id decl).edits, site.source.Beside .block edit := by
    intro edit listed
    obtain ⟨list, place, is, rfl⟩ := signatureEdits_cases parsed member listed
    exact Source.beside_addParameter parsed place is _
  have rest : ∀ edit ∈ passed.map Passed.edit ++ segments, site.source.Beside .block edit := by
    intro edit listed
    rcases List.mem_append.1 listed with call | segment
    · exact passed_beside parsed below planned edit call
    · exact (planned.segments edit segment).beside parsed below
  obtain ⟨opened, creation, few⟩ := creationEdits_laid scope ((site.graph.function? id).bind (·.entry)) parsed below kind
  obtain ⟨leaves, literals, differ, bodies⟩ := literalEdits_laid parsed below (by rw [kind]; simp) planned.tracks
  have whole := (((Source.Laid.of_beside signature).append creation).append literals).append (.of_beside rest)
  rw [List.append_nil, List.nil_append] at whole
  refine ⟨opened ++ leaves, ?_, ?_, ?_⟩
  · rw [planned.edits, List.append_assoc _ (passed.map Passed.edit)]
    exact whole
  · refine List.nodup_append.2 ⟨few.nodup (List.nodup_singleton _), differ, ?_⟩
    rintro leaf here _ later rfl
    obtain ⟨literal, inside⟩ := bodies leaf later
    exact inside.ne_top (List.mem_singleton.1 (few.subset here))
  · intro leaf listed
    rcases List.mem_append.1 listed with here | later
    · rw [List.mem_singleton.1 (few.subset here)]
      exact .here
    · obtain ⟨literal, inside⟩ := bodies leaf later
      exact inside.below

/-! Whole files. -/

variable {withDeferred : Bool} {made : HandleEdits}

theorem declEdits_laid (parsed : site.source.IsParsed) (builtIn : site.setup.catalog = Catalog.builtIn)
    (member : decl ∈ FunctionDecl.all site.source) (done : site.declEdits withDeferred decl = .ok made) :
    ∃ leaves, site.source.Laid .block made.edits leaves ∧ leaves.Nodup ∧
      ∀ leaf ∈ leaves, decl.place.start ≤ leaf.start ∧ leaf.stop ≤ decl.place.stop := by
  rcases declEdits_planned parsed builtIn member done with ⟨nothing, _⟩ | ⟨id, body, scope, passed, segments, planned⟩
  · rw [nothing]
    exact ⟨[], .nil, .nil, by simp⟩
  · obtain ⟨leaves, laid, once, inside⟩ := planned.laid parsed member
    refine ⟨leaves, laid, once, fun leaf listed => ?_⟩
    have within := (inside leaf listed).within (FunctionDecl.annotated_body parsed member planned.found)
    have item := FunctionDecl.annotated_of_mem_parts parsed (FunctionDecl.of_mem_all member).1
    have outer := item.shaped.chain.mem (FunctionDecl.body_spec parsed member planned.found).2.1
    exact ⟨Nat.le_trans outer.1 within.1, Nat.le_trans within.2 outer.2.2⟩

theorem mapM_declEdits_laid (parsed : site.source.IsParsed) (builtIn : site.setup.catalog = Catalog.builtIn)
    {decls : List FunctionDecl} {parts : List HandleEdits} (members : ∀ decl ∈ decls, decl ∈ FunctionDecl.all site.source)
    (order : decls.Pairwise fun a b => a.place.stop ≤ b.place.start)
    (done : decls.mapM (site.declEdits withDeferred) = .ok parts) :
    ∃ leaves, site.source.Laid .block (parts.flatMap (·.edits)) leaves ∧ leaves.Nodup ∧
      ∀ leaf ∈ leaves, ∃ decl ∈ decls, decl.place.start ≤ leaf.start ∧ leaf.stop ≤ decl.place.stop := by
  induction decls generalizing parts with
  | nil =>
      cases done
      exact ⟨[], .nil, .nil, by simp⟩
  | cons decl decls ih =>
      obtain ⟨member, members⟩ := List.forall_mem_cons.1 members
      obtain ⟨before, order⟩ := List.pairwise_cons.1 order
      rw [List.mapM_cons] at done
      obtain ⟨made, first, done⟩ := exists_of_bind_eq_ok done
      obtain ⟨rest, later, done⟩ := exists_of_bind_eq_ok done
      cases done
      obtain ⟨leaves, laid, once, inside⟩ := declEdits_laid parsed builtIn member first
      obtain ⟨leaves', laid', once', inside'⟩ := ih members order later
      refine ⟨leaves ++ leaves', laid.append laid', List.nodup_append.2 ⟨once, once', ?_⟩, ?_⟩
      · rintro leaf here _ later rfl
        obtain ⟨other, listed, starts, _⟩ := inside' leaf later
        have ends := (inside leaf here).2
        have apart := before other listed
        have wide := (laid.isLeaf leaf here).wide parsed (by simp)
        omega
      · intro leaf listed
        rcases List.mem_append.1 listed with here | later
        · exact ⟨decl, List.mem_cons_self, inside leaf here⟩
        · obtain ⟨other, listed, within⟩ := inside' leaf later
          exact ⟨other, List.mem_cons_of_mem _ listed, within⟩

/-- What the second pass plans for a file is carried out. -/
theorem fileEdits_accepted (parsed : site.source.IsParsed) (builtIn : site.setup.catalog = Catalog.builtIn)
    (done : site.fileEdits withDeferred = .ok made) : ∃ changed, site.source.apply made.edits = .ok changed := by
  unfold fileEdits at done
  obtain ⟨parts, mapped, done⟩ := exists_of_bind_eq_ok done
  cases done
  obtain ⟨leaves, laid, once, _⟩ := mapM_declEdits_laid parsed builtIn (fun _ => id) (FunctionDecl.all_pairwise parsed) mapped
  refine (laid.append (.of_beside (fileLevelEdits_beside parsed))).accepted parsed (by simp) ?_
  rwa [List.append_nil]

end HandleSite
end TraceWeave
