import TraceWeave.Proofs.HandleBatch
import TraceWeave.Proofs.FileHistory
import TraceWeave.Proofs.Seats
import TraceWeave.Proofs.Stretch

/-!
Where the second pass makes the handle, and where it uses it. A function or a handler literal makes it at most once, at
the start of its body, and in the result all uses in the body stand behind that. The handle is made where a use asked
for it. Such a use is in the body, but for one case: a call in the signature of a literal asks for the handle of the
literal, as if it stood in the body.
-/
namespace TraceWeave

open Go (Node Place Token)
open Go.Node (Annotated)
open Go.Place (Below Inside)

/-! Two edits of a batch. -/

namespace Edit

variable {source text : String} {done stop : Nat} {a b edit : Edit} {edits edits' : List Edit}

/-- The text of one edit stands before that of another in the result of a batch. -/
def Leads (source : String) (edits : List Edit) (a b : Edit) (text : String) : Prop :=
  ∃ early between late, inOrder edits = early ++ a :: (between ++ b :: late) ∧
    text = rendered source a.start 0 early ++ a.text ++
      (rendered source b.start a.stop between ++ b.text ++ rendered source (Text.size source) b.stop late)

theorem rendered_cut (source : String) (stop done : Nat) (edits : List Edit) (edit : Edit) (edits' : List Edit) :
    rendered source stop done (edits ++ edit :: edits') =
      rendered source edit.start done edits ++ edit.text ++ rendered source stop edit.stop edits' := by
  induction edits generalizing done with
  | nil => rfl
  | cons first edits ih =>
      rw [List.cons_append, rendered, ih, rendered]
      simp only [String.append_assoc]

theorem exists_of_pair_sublist {α : Type} {a b : α} {items : List α} (pair : [a, b].Sublist items) :
    ∃ early between late, items = early ++ a :: (between ++ b :: late) := by
  obtain ⟨early, rest, rfl, member, single⟩ := List.cons_sublist_iff.1 pair
  obtain ⟨early, more, rfl⟩ := List.append_of_mem member
  obtain ⟨between, late, rfl⟩ := List.append_of_mem (List.singleton_sublist.1 single)
  exact ⟨early, more ++ between, late, by simp⟩

theorem leads_of_sublist (pair : [a, b].Sublist (inOrder edits)) (performed : perform source edits = .ok text) :
    Leads source edits a b text := by
  obtain ⟨early, between, late, order⟩ := exists_of_pair_sublist pair
  refine ⟨early, between, late, order, ?_⟩
  rw [(performFrom_row (Text.isBoundary_zero source) performed).2, order, rendered_cut, rendered_cut]

/-- An edit that begins earlier is carried out earlier. -/
theorem sublist_inOrder_of_lt (listed : a ∈ edits) (listed' : b ∈ edits) (earlier : a.start < b.start) :
    [a, b].Sublist (inOrder edits) := by
  obtain ⟨early, late, split⟩ := List.append_of_mem (mem_inOrder.2 listed)
  have order := inOrder_pairwise edits
  have member := mem_inOrder.2 listed'
  rw [split] at order member ⊢
  rcases List.mem_append.1 member with before | same | later
  · have contrary := goesBefore_iff.1 ((List.pairwise_append.1 order).2.2 b before a List.mem_cons_self)
    omega
  · exact absurd earlier (Nat.lt_irrefl _)
  · rename_i later
    exact List.sublist_append_of_sublist_right ((List.singleton_sublist.2 later).cons_cons a)

/-- Insertions at one offset are carried out in the order of the batch. -/
theorem sublist_inOrder_of_eq (pair : [a, b].Sublist edits) (same : a.start = b.start) (point : a.stop = a.start) :
    [a, b].Sublist (inOrder edits) :=
  List.pair_sublist_mergeSort goesBefore_trans goesBefore_total
    (goesBefore_iff.2 (.inr ⟨same, .inl (beq_iff_eq.2 point.symm)⟩)) pair

end Edit

/-! What an answer notes. -/

namespace HandleScope

variable {scope : HandleScope} {around : List Node} {node : Node} {result : Bool × HandleScope}

/-- The nodes around a place that are inside its function, innermost first. -/
def inner (around : List Node) : List Node := around.takeWhile fun node => !node.kind.isFunction

theorem inner_cons (apart : ¬ node.kind.isFunction = true) (around : List Node) :
    inner (node :: around) = node :: inner around :=
  List.takeWhile_cons_of_pos (by simpa using apart)

/-- Only with a yes it is noted that the function uses its handle, or that a literal in it makes one. -/
structure Recorded (scope : HandleScope) (around : List Node) (result : Bool × HandleScope) : Prop where
  used : result.2.used = true → scope.used = true ∨ result.1 = true
  handlers : ∀ found ∈ result.2.handlers, found ∈ scope.handlers ∨ result.1 = true ∧ found.literal ∈ inner around

theorem atFunction_recorded (scope : HandleScope) (around : List Node) : Recorded scope around scope.atFunction :=
  ⟨fun used => Bool.or_eq_true_iff.1 used, fun _ noted => .inl noted⟩

theorem Recorded.outward (recorded : Recorded scope around result) (apart : ¬ node.kind.isFunction = true) :
    Recorded scope (node :: around) result := by
  refine ⟨recorded.used, fun found listed => (recorded.handlers found listed).imp_right fun new => ⟨new.1, ?_⟩⟩
  rw [inner_cons apart]
  exact List.mem_cons_of_mem _ new.2

theorem consult_recorded (scope : HandleScope) (around : List Node) : Recorded scope around (scope.consult around) := by
  fun_induction consult scope around with
  | case1 => exact atFunction_recorded scope []
  | case2 node around => exact atFunction_recorded scope _
  | case3 => exact ⟨.inl, fun _ => .inl⟩
  | case4 => exact ⟨.inl, fun _ => .inl⟩
  | case5 => exact ⟨.inl, fun _ => .inl⟩
  | case6 node around apart _ _ request =>
      refine ⟨.inl, fun found listed => ?_⟩
      rcases List.mem_append.1 listed with old | new
      · exact .inl old
      · rw [List.mem_singleton.1 new, inner_cons apart]
        exact .inr ⟨rfl, List.mem_cons_self⟩
  | case7 node around apart _ _ launch index _ answer scope' consulted scope'' ih =>
      rw [consulted] at ih
      have same : scope''.used = scope'.used ∧ scope''.handlers = scope'.handlers := by
        cases answer <;> exact ⟨rfl, rfl⟩
      exact ⟨fun used => ih.used (same.1 ▸ used), fun found listed => (ih.outward apart).handlers found (same.2 ▸ listed)⟩
  | case8 node around apart _ _ _ answer scope' consulted ih =>
      rw [consulted] at ih
      exact ⟨ih.used, (ih.outward apart).handlers⟩
  | case9 node around apart _ ih => exact ih.outward apart

end HandleScope

/-- A literal of a function with a place in it. -/
theorem Go.Place.Below.exists_literal {top place : Place} {literal : Node} (below : Below top place)
    (closed : HandleScope.Closed top) (member : literal ∈ HandleScope.inner place.around) :
    ∃ around, Below top ⟨literal, around⟩ ∧ Inside ⟨literal, around⟩ place := by
  induction below with
  | here =>
      cases outer : top.around with
      | nil =>
          rw [outer] at member
          cases member
      | cons node around =>
          have kind := closed node (by rw [outer]; rfl)
          rw [outer, HandleScope.inner, List.takeWhile_cons_of_neg (by simp [kind])] at member
          cases member
  | @inside place child below listed ih =>
      by_cases kind : place.node.kind.isFunction = true
      · rw [Place.inside, HandleScope.inner, List.takeWhile_cons_of_neg (by simp [kind])] at member
        cases member
      · rw [Place.inside, HandleScope.inner_cons kind] at member
        rcases List.mem_cons.1 member with rfl | outer
        · exact ⟨place.around, below, child, listed, .here⟩
        · obtain ⟨around, outside, inner, listed', below'⟩ := ih outer
          exact ⟨around, outside, inner, listed', below'.inside listed⟩

/-! What edits do with the handle. -/

/-- An edit of the second pass, with what it does with the handle. -/
inductive Stitch where
  /-- A function makes the handle at the start of its body. -/
  | creation (function : Place) (body : Node) (value : String) (more : List String)
  /-- A call gets the handle, or one for a new goroutine. -/
  | argument (call : Place) (list : Node) (index : Nat) (launched : Bool)
  /-- A segment begins before a statement. -/
  | segment (statement : Place) (name function : String)
  /-- The handle is neither made nor used. -/
  | other (edit : Edit)

namespace Stitch

def edit (site : HandleSite) : Stitch → Edit
  | .creation _ body value more => .addAtStart site.source.text body ((site.handle ++ " := " ++ value) :: more)
  | .argument _ list index launched =>
      .addToArguments list index (if launched then site.goroutineHandle else site.handle)
  | .segment statement name function => .addBefore site.source.text statement.node
      (name ++ " := " ++ site.handle ++ ".StartSegment(\"http." ++ function ++ "\")")
  | .other edit => edit

/-- The place where the handle is used. -/
def use? : Stitch → Option Place
  | .argument call _ _ _ => some call
  | .segment statement _ _ => some statement
  | _ => none

/-- The function that makes the handle. -/
def maker? : Stitch → Option Place
  | .creation function _ _ _ => some function
  | _ => none

/-- An edit is about places at or below `top`, and is what it is said to be. -/
inductive Right (site : HandleSite) (top : Place) : Stitch → Prop where
  | creation {function : Place} {body : Node} (below : Below top function)
      (is : function.kind = .funcLiteral ∨ function.kind.isFunction = true) (has : function.node.child? .body = some body)
      (block : body.kind = .block) (value : String) (more : List String) :
      Right site top (.creation function body value more)
  | argument {call : Place} {list : Node} (below : Below top call) (is : call.kind = .callExpression)
      (has : call.node.child? .arguments = some list) (index : Nat) (launched : Bool) :
      Right site top (.argument call list index launched)
  | segment {block statement : Place} (below : Below top block) (is : block.kind = .block)
      (part : statement ∈ block.parts) (name function : String) : Right site top (.segment statement name function)
  | parameter (list : Node) : Right site top (.other (.addParameter list site.handleParameter))
  | nothing (list : Node) (index : Nat) : Right site top (.other (.addToArguments list index "nil"))
  | finish (statement : Node) (name : String) :
      Right site top (.other (.addAfter site.source.text statement (name ++ ".End()")))

/-- The handle is not made twice in a function, and it is made before a segment of its body is planned. -/
def Apart : Stitch → Stitch → Prop
  | .creation function _ _ _, .creation function' _ _ _ => function ≠ function'
  | .segment statement _ _, .creation function body _ _ => ¬ Below (function.inside body) statement
  | _, _ => True

variable {site : HandleSite} {top top' : Place} {a b stitch : Stitch}

theorem Right.mono (right : Right site top' stitch) (below : Below top top') : Right site top stitch := by
  cases right with
  | creation inside is has block value more => exact .creation (below.trans inside) is has block value more
  | argument inside is has index launched => exact .argument (below.trans inside) is has index launched
  | segment inside is part name function => exact .segment (below.trans inside) is part name function
  | parameter list => exact .parameter list
  | nothing list index => exact .nothing list index
  | finish statement name => exact .finish statement name

theorem Right.below_use (right : Right site top stitch) {place : Place} (uses : stitch.use? = some place) :
    Below top place := by
  cases right with
  | argument below => exact Option.some.inj uses ▸ below
  | segment below _ part => exact Option.some.inj uses ▸ below.trans (below_of_mem_parts part)
  | creation => cases uses
  | parameter => cases uses
  | nothing => cases uses
  | finish => cases uses

theorem Right.below_maker (right : Right site top stitch) {function : Place} (makes : stitch.maker? = some function) :
    Below top function := by
  cases right with
  | creation below => exact Option.some.inj makes ▸ below
  | argument => cases makes
  | segment => cases makes
  | parameter => cases makes
  | nothing => cases makes
  | finish => cases makes

/-- The body of a function that makes the handle is a place as well. -/
theorem Right.below_body {function : Place} {body : Node} {value : String} {more : List String}
    (right : Right site top (.creation function body value more)) : Below top (function.inside body) := by
  cases right with
  | creation below _ has block =>
      exact below.inside (List.mem_filter.2 ⟨List.mem_of_find?_eq_some has, by rw [block]; rfl⟩)

theorem apart_of_plain (plain : b.maker? = none) : Apart a b := by
  cases b with
  | creation => cases plain
  | argument => cases a <;> trivial
  | segment => cases a <;> trivial
  | other => cases a <;> trivial

end Stitch

namespace HandleSite

variable {site : HandleSite} {top body : Place} {scope : HandleScope} {stitches earlier new : List Stitch}

/-- A use for which the handle is made in a function: it is in the body, or in the signature of a literal. -/
def Serves (function : Place) (body : Node) (place : Place) : Prop :=
  Below (function.inside body) place ∨
    function.kind = .funcLiteral ∧ ∃ child ∈ function.node.named, child ≠ body ∧ Below (function.inside child) place

/-- What edits do with the handle below a place. -/
structure Woven (site : HandleSite) (top : Place) (stitches : List Stitch) : Prop where
  right : ∀ stitch ∈ stitches, stitch.Right site top
  apart : stitches.Pairwise Stitch.Apart
  served : ∀ function body value more, .creation function body value more ∈ stitches →
    ∃ use ∈ stitches, ∃ place, use.use? = some place ∧ Serves function body place

/-! Questions about places. -/

/-- What is noted about the handle comes from uses. -/
structure Backed (scope : HandleScope) (stitches : List Stitch) : Prop where
  used : scope.used = true → ∃ use ∈ stitches, ∃ place, use.use? = some place
  handlers : ∀ found ∈ scope.handlers, ∃ use ∈ stitches, ∃ place, use.use? = some place ∧
    found.literal ∈ HandleScope.inner place.around

theorem Backed.more (backed : Backed scope earlier) (new : List Stitch) : Backed scope (earlier ++ new) := by
  refine ⟨fun used => ?_, fun found noted => ?_⟩
  · obtain ⟨use, listed, known⟩ := backed.used used
    exact ⟨use, List.mem_append_left _ listed, known⟩
  · obtain ⟨use, listed, known⟩ := backed.handlers found noted
    exact ⟨use, List.mem_append_left _ listed, known⟩

/-- A yes goes with a use of the handle at the place of the question. -/
theorem Backed.asked {place : Place} (backed : Backed scope earlier)
    (uses : (scope.availableAt place).1 = true → ∃ use ∈ new, use.use? = some place) :
    Backed (scope.availableAt place).2 (earlier ++ new) := by
  have recorded := HandleScope.consult_recorded scope place.around
  change HandleScope.Recorded scope place.around (scope.availableAt place) at recorded
  have kept := backed.more new
  refine ⟨fun used => ?_, fun found listed => ?_⟩
  · rcases recorded.used used with old | yes
    · exact kept.used old
    · obtain ⟨use, member, known⟩ := uses yes
      exact ⟨use, List.mem_append_right _ member, place, known⟩
  · rcases recorded.handlers found listed with old | ⟨yes, inside⟩
    · exact kept.handlers found old
    · obtain ⟨use, member, known⟩ := uses yes
      exact ⟨use, List.mem_append_right _ member, place, known, inside⟩

/-- Places have been asked about, and edits planned that use the handle or leave it alone. -/
structure Asked (site : HandleSite) (top : Place) (before after : List Edit × HandleScope) (stitches : List Stitch) :
    Prop where
  tracks : after.2.Tracks top
  edits : after.1 = before.1 ++ stitches.map (·.edit site)
  right : ∀ stitch ∈ stitches, stitch.Right site top ∧ stitch.maker? = none
  backed : ∀ earlier, Backed before.2 earlier → Backed after.2 (earlier ++ stitches)

variable {before middle after : List Edit × HandleScope}

theorem Asked.refl (tracks : before.2.Tracks top) : site.Asked top before before [] :=
  ⟨tracks, by simp, by simp, fun earlier backed => backed.more []⟩

theorem Asked.trans (first : site.Asked top before middle stitches) (second : site.Asked top middle after new) :
    site.Asked top before after (stitches ++ new) where
  tracks := second.tracks
  edits := by rw [second.edits, first.edits, List.map_append, List.append_assoc]
  right := List.forall_mem_append.2 ⟨first.right, second.right⟩
  backed := fun earlier backed => by
    rw [← List.append_assoc]
    exact second.backed _ (first.backed earlier backed)

theorem callEdit_asked (here : Surroundings) (annotated : Annotated (Token.Clear site.source.text) top.node)
    (closed : HandleScope.Closed top) (tracks : before.2.Tracks top) {call : Place} (below : Below top call) :
    ∃ stitches, site.Asked top before (site.callEdit here before call) stitches := by
  unfold callEdit
  split
  · exact ⟨[], .refl tracks⟩
  · rename_i callee named
    have isCall := kind_of_widenedCallee? named
    have answered := HandleScope.availableAt_answered annotated closed tracks below
    obtain ⟨list, has, _⟩ := (below.annotated annotated).argumentList isCall
    dsimp only
    rw [Edit.addArgument?, has]
    cases known : (before.2.availableAt call).1 with
    | false =>
        refine ⟨[.other (.addToArguments list callee.handleIndex "nil")], answered.tracks, rfl, ?_, fun earlier backed => ?_⟩
        · exact List.forall_mem_singleton.2 ⟨.nothing list _, rfl⟩
        · exact backed.asked fun yes => absurd (known.symm.trans yes) Bool.false_ne_true
    | true =>
        refine ⟨[.argument call list callee.handleIndex (isLaunched call.around)], answered.tracks, ?_, ?_,
          fun earlier backed => ?_⟩
        · rfl
        · exact List.forall_mem_singleton.2 ⟨.argument below isCall has _ _, rfl⟩
        · exact backed.asked fun _ => ⟨_, List.mem_singleton_self _, rfl⟩

theorem foldl_callEdit_asked (here : Surroundings) (annotated : Annotated (Token.Clear site.source.text) top.node)
    (closed : HandleScope.Closed top) (tracks : before.2.Tracks top) {places : List Place}
    (below : ∀ place ∈ places, Below top place) :
    ∃ stitches, site.Asked top before (places.foldl (site.callEdit here) before) stitches := by
  induction places generalizing before with
  | nil => exact ⟨[], .refl tracks⟩
  | cons call places ih =>
      obtain ⟨first, below⟩ := List.forall_mem_cons.1 below
      obtain ⟨stitches, one⟩ := callEdit_asked here annotated closed tracks first
      obtain ⟨stitches', rest⟩ := ih one.tracks below
      exact ⟨_, one.trans rest⟩

/-- The edits of statements, with the notes. -/
def pending (state : HandleEdits × HandleScope) : List Edit × HandleScope := (state.1.edits, state.2)

theorem deferredStatement_asked (builtIn : site.setup.catalog = Catalog.builtIn)
    (annotated : Annotated (Token.Clear site.source.text) top.node) (closed : HandleScope.Closed top) {isMain : Bool}
    {state next : HandleEdits × HandleScope} {block place : Place} {view : StatementView} {supply supply' : NameSupply}
    (below : Below top block) (is : block.kind = .block) (part : place ∈ block.parts) (node : view.node = place.node)
    (text : view.source = site.source.text) (tracks : state.2.Tracks top)
    (done : site.deferredStatement isMain state (place, view) supply = (.ok next, supply')) :
    ∃ stitches, site.Asked top (pending state) (pending next) stitches := by
  rcases deferredStatement_cases builtIn done with ⟨_, rfl⟩ | ⟨_, moved, _, new, edits, code⟩
  · exact ⟨[], .refl tracks⟩
  · have answered := HandleScope.availableAt_answered annotated closed tracks (below.trans (below_of_mem_parts part))
    unfold pending
    rw [moved, edits]
    rcases code with ⟨no, rfl⟩ | ⟨_, name, function, rfl⟩
    · refine ⟨[], answered.tracks, by simp, by simp, fun earlier backed => ?_⟩
      exact backed.asked fun yes => absurd (no.symm.trans yes) Bool.false_ne_true
    · refine ⟨[.segment place name function, .other (.addAfter site.source.text place.node (name ++ ".End()"))],
        answered.tracks, ?_, ?_, fun earlier backed => ?_⟩
      · rw [node, text]
        rfl
      · refine List.forall_mem_cons.2 ⟨⟨.segment below is part name function, rfl⟩, List.forall_mem_singleton.2 ?_⟩
        exact ⟨.finish place.node name, rfl⟩
      · exact backed.asked fun _ => ⟨_, List.mem_cons_self, rfl⟩

theorem deferredEdits_asked (builtIn : site.setup.catalog = Catalog.builtIn)
    (annotated : Annotated (Token.Clear site.source.text) top.node) (closed : HandleScope.Closed top) {isMain : Bool}
    {decl : FunctionDecl} {result : HandleEdits × HandleScope} (tracks : scope.Tracks top)
    (done : site.deferredEdits isMain scope decl top = .ok result) :
    ∃ stitches, site.Asked top ([], scope) (pending result) stitches := by
  unfold deferredEdits at done
  generalize NameSupply.forFunction site.source site.imports decl.place.node = supply at done
  let holds (state : HandleEdits × HandleScope) : Prop := ∃ stitches, site.Asked top ([], scope) (pending state) stitches
  have start : holds ({}, scope) := ⟨[], .refl tracks⟩
  refine (Naming.foldlM_keeps ?_ start (Prod.ext done rfl) : holds result)
  rintro ⟨place, view⟩ member state supply next supply' ⟨stitches, asked⟩ stepped
  obtain ⟨statements, listed, paired⟩ := List.mem_flatMap.1 member
  obtain ⟨block, met, rfl⟩ := List.mem_map.1 listed
  obtain ⟨part, node, text⟩ := mem_viewsOf paired
  obtain ⟨met, kind⟩ := List.mem_filter.1 met
  obtain ⟨stitches', step⟩ := deferredStatement_asked builtIn annotated closed (Go.Place.mem_descendants.1 met)
    (beq_iff_eq.1 kind) part node text asked.tracks stepped
  exact ⟨_, asked.trans step⟩

/-! Whole declarations. -/

variable {decl : FunctionDecl} {id : Nat}

/-- Edits of items, one item after the other. -/
theorem exists_stitches {α : Type} {items : List α} {edits : α → List Edit} {holds : Stitch → Prop}
    (each : ∀ item ∈ items, ∃ stitches : List Stitch, edits item = stitches.map (·.edit site) ∧
      ∀ stitch ∈ stitches, holds stitch) :
    ∃ stitches : List Stitch, items.flatMap edits = stitches.map (·.edit site) ∧ ∀ stitch ∈ stitches, holds stitch := by
  induction items with
  | nil => exact ⟨[], rfl, by simp⟩
  | cons item items ih =>
      obtain ⟨⟨stitches, edited, held⟩, each⟩ := List.forall_mem_cons.1 each
      obtain ⟨stitches', edited', held'⟩ := ih each
      exact ⟨stitches ++ stitches', by rw [List.flatMap_cons, List.map_append, edited, edited'],
        List.forall_mem_append.2 ⟨held, held'⟩⟩

/-- Edits that make no handle, and may stand anywhere in a plan. -/
def Plain (site : HandleSite) (top : Place) (stitch : Stitch) : Prop :=
  stitch.Right site top ∧ stitch.maker? = none ∧ ∀ other, stitch.Apart other

theorem signatureEdits_stitches (site : HandleSite) (id : Nat) (decl : FunctionDecl) (top : Place) :
    ∃ stitches : List Stitch, (site.signatureEdits id decl).edits = stitches.map (·.edit site) ∧
      ∀ stitch ∈ stitches, site.Plain top stitch := by
  unfold signatureEdits
  split
  · rename_i list _
    split
    · refine ⟨[.other (.addParameter list.node site.handleParameter)], rfl, List.forall_mem_singleton.2 ?_⟩
      exact ⟨.parameter list.node, rfl, fun _ => trivial⟩
    · exact ⟨[], rfl, by simp⟩
  · exact ⟨[], rfl, by simp⟩

theorem launchedEdits_stitches {found : LaunchedLiteral} {around : List Node}
    (annotated : Annotated (Token.Clear site.source.text) top.node) (apart : top.node.kind ≠ .funcLiteral)
    (is : found.literal.kind = .funcLiteral) (inside : Below top ⟨found.literal, around⟩)
    (launched : launchOf? found.literal around = some found.launch) :
    ∃ stitches : List Stitch, (site.launchedEdits found).edits = stitches.map (·.edit site) ∧
      ∀ stitch ∈ stitches, site.Plain top stitch := by
  obtain ⟨parameters, has, _⟩ := (inside.annotated annotated).literalParameters is
  obtain ⟨outer, _, call, isCall⟩ := below_launch inside apart is launched
  obtain ⟨list, has', _⟩ := (call.annotated annotated).argumentList isCall
  refine ⟨[.other (.addParameter parameters site.handleParameter), .argument ⟨found.launch, outer⟩ list found.index true],
    ?_, List.forall_mem_cons.2 ⟨⟨.parameter parameters, rfl, fun _ => trivial⟩, List.forall_mem_singleton.2 ?_⟩⟩
  · rw [launchedEdits, has, Edit.addArgument?, has']
    rfl
  · exact ⟨.argument call isCall has' _ _, rfl, fun other => by cases other <;> trivial⟩

/-- What an entry point makes is for a use in its body. -/
theorem creationEdits_stitches (site : HandleSite) (scope : HandleScope) (entry : Option Entry) (parsed : site.source.IsParsed)
    (member : decl ∈ FunctionDecl.all site.source) (found : decl.body = some body) :
    ∃ stitches : List Stitch, (site.creationEdits scope entry body.node).edits = stitches.map (·.edit site) ∧
      (stitches = [] ∨ scope.used = true ∧ ∃ value more, stitches = [.creation decl.place body.node value more] ∧
        Stitch.Right site decl.place (.creation decl.place body.node value more)) := by
  obtain ⟨_, kind, _, child⟩ := FunctionDecl.of_mem_all member
  have block := (FunctionDecl.body_spec parsed member found).1
  obtain ⟨node, has, rfl⟩ := Option.map_eq_some_iff.1 (child.symm.trans found)
  have right : ∀ value more, Stitch.Right site decl.place (.creation decl.place node value more) :=
    fun value more => .creation .here (.inr kind) has block value more
  unfold creationEdits creation
  split
  · rename_i test
    have used : scope.used = true := (Bool.and_eq_true_iff.1 test).1
    rcases entry with _ | _ | (_ | request) | _
    · exact ⟨[], rfl, .inl rfl⟩
    · refine ⟨[.creation decl.place node (site.setup.settings.agent ++ ".StartTransaction(\"main\")")
        ["defer " ++ site.handle ++ ".End()"]], ?_, .inr ⟨used, _, _, rfl, right _ _⟩⟩
      rw [List.map_singleton, Stitch.edit, ← String.append_assoc]
      rfl
    · exact ⟨[], rfl, .inl rfl⟩
    · obtain ⟨value, same⟩ := site.exists_fromRequest request
      refine ⟨[.creation decl.place node value []], ?_, .inr ⟨used, _, _, rfl, right _ _⟩⟩
      rw [List.map_singleton, Stitch.edit, ← same]
      rfl
    · exact ⟨[], rfl, .inl rfl⟩
  · exact ⟨[], rfl, .inl rfl⟩

/-- Handler literals make the handle once each. -/
theorem handlerEdits_stitches {found : List HandlerLiteral} (annotated : Annotated (Token.Clear site.source.text) top.node)
    (each : ∀ one ∈ found, one.literal.kind = .funcLiteral ∧ ∃ around, Below top ⟨one.literal, around⟩)
    (once : found.Pairwise fun a b => a.literal.isSame b.literal = false) :
    ∃ stitches : List Stitch, (found.map site.handlerEdits).flatMap (·.edits) = stitches.map (·.edit site) ∧
      stitches.Pairwise Stitch.Apart ∧ ∀ stitch ∈ stitches, stitch.Right site top ∧ ∃ one ∈ found,
        ∃ around node value, stitch = .creation ⟨one.literal, around⟩ node value [] := by
  induction found with
  | nil => exact ⟨[], rfl, .nil, by simp⟩
  | cons one found ih =>
      obtain ⟨⟨is, around, inside⟩, each⟩ := List.forall_mem_cons.1 each
      obtain ⟨differs, once⟩ := List.pairwise_cons.1 once
      obtain ⟨stitches, edited, apart, makers⟩ := ih each once
      obtain ⟨node, has, block⟩ := (inside.annotated annotated).literalBody is
      obtain ⟨value, same⟩ := site.exists_fromRequest one.request
      refine ⟨.creation ⟨one.literal, around⟩ node value [] :: stitches, ?_, List.pairwise_cons.2 ⟨?_, apart⟩,
        List.forall_mem_cons.2 ⟨⟨.creation inside (.inl is) has block value [], one, List.mem_cons_self, around, node, value, rfl⟩, ?_⟩⟩
      · rw [List.map_cons, List.flatMap_cons, edited, handlerEdits, has, same]
        rfl
      · intro stitch listed
        obtain ⟨_, other, member, around', _, _, rfl⟩ := makers stitch listed
        rintro equal
        have alike : one.literal = other.literal := congrArg Place.node equal
        have contrary := differs other member
        rw [alike, Node.isSame_refl] at contrary
        cases contrary
      · intro stitch listed
        obtain ⟨right, other, member, known⟩ := makers stitch listed
        exact ⟨right, other, List.mem_cons_of_mem _ member, known⟩

theorem pairwise_plain_append {stitches' : List Stitch} (plain : ∀ stitch ∈ stitches, site.Plain top stitch)
    (apart : stitches'.Pairwise Stitch.Apart) : (stitches ++ stitches').Pairwise Stitch.Apart :=
  List.pairwise_append.2 ⟨List.pairwise_of_forall_mem_list fun a listed b _ => (plain a listed).2.2 b, apart,
    fun a listed b _ => (plain a listed).2.2 b⟩

theorem pairwise_append_idle {stitches' : List Stitch} (apart : stitches.Pairwise Stitch.Apart)
    (idle : ∀ stitch ∈ stitches', stitch.maker? = none) : (stitches ++ stitches').Pairwise Stitch.Apart :=
  List.pairwise_append.2 ⟨apart, List.pairwise_of_forall_mem_list fun _ _ b listed => Stitch.apart_of_plain (idle b listed),
    fun _ _ b listed => Stitch.apart_of_plain (idle b listed)⟩

theorem literalEdits_stitches (annotated : Annotated (Token.Clear site.source.text) top.node)
    (apart : top.node.kind ≠ .funcLiteral) (tracks : scope.Tracks top) :
    ∃ stitches : List Stitch, site.literalEdits scope = stitches.map (·.edit site) ∧ stitches.Pairwise Stitch.Apart ∧
      ∀ stitch ∈ stitches, stitch.Right site top ∧ ∀ function, stitch.maker? = some function →
        function.kind = .funcLiteral ∧ ∃ one ∈ scope.handlers, function.node = one.literal := by
  have each : ∀ one ∈ scope.launchedInOrder, ∃ stitches : List Stitch, (site.launchedEdits one).edits =
      stitches.map (·.edit site) ∧ ∀ stitch ∈ stitches, site.Plain top stitch := by
    intro one listed
    obtain ⟨is, around, below, judged, _⟩ := tracks.launched one (List.mem_mergeSort.1 listed)
    exact launchedEdits_stitches annotated apart is below (launchOf?_of_judge judged)
  obtain ⟨launched, edited, plain⟩ := exists_stitches each
  have once : scope.handlersInOrder.Pairwise fun a b => a.literal.isSame b.literal = false := by
    refine (List.mergeSort_perm scope.handlers _).symm.pairwise tracks.once fun {a b} differ => ?_
    rw [Node.isSame_comm]
    exact differ
  have each : ∀ one ∈ scope.handlersInOrder, one.literal.kind = .funcLiteral ∧ ∃ around, Below top ⟨one.literal, around⟩ := by
    intro one listed
    obtain ⟨is, around, below, _⟩ := tracks.handlers one (List.mem_mergeSort.1 listed)
    exact ⟨is, around, below⟩
  obtain ⟨handlers, edited', apart, makers⟩ := handlerEdits_stitches annotated each once
  refine ⟨launched ++ handlers, ?_, pairwise_plain_append plain apart, List.forall_mem_append.2 ⟨?_, ?_⟩⟩
  · rw [literalEdits, List.flatMap_append, List.flatMap_map, edited, edited', List.map_append]
  · intro stitch listed
    obtain ⟨right, idle, _⟩ := plain stitch listed
    exact ⟨right, fun function makes => by cases idle.symm.trans makes⟩
  · intro stitch listed
    obtain ⟨right, one, noted, around, node, value, rfl⟩ := makers stitch listed
    refine ⟨right, fun function makes => ?_⟩
    cases makes
    exact ⟨(each one noted).1, one, List.mem_mergeSort.1 noted, rfl⟩

/-- What a handler literal makes is for a use in its body or in its signature. -/
theorem Backed.serves {uses : List Stitch} (backed : Backed scope uses)
    (annotated : Annotated (Token.Clear site.source.text) top.node) (closed : HandleScope.Closed top)
    (right : ∀ stitch ∈ uses, stitch.Right site top) {found : HandlerLiteral} (noted : found ∈ scope.handlers)
    {function : Place} (same : function.node = found.literal) (is : function.kind = .funcLiteral) (below : Below top function)
    (node : Node) : ∃ use ∈ uses, ∃ place, use.use? = some place ∧ Serves function node place := by
  obtain ⟨use, listed, place, known, inner⟩ := backed.handlers found noted
  obtain ⟨around, below', inside⟩ := ((right use listed).below_use known).exists_literal closed inner
  have equal : (⟨found.literal, around⟩ : Place) = function :=
    Go.Place.literal_unique annotated below' below (same ▸ is) is (congrArg Node.start same.symm)
  rw [equal] at inside
  obtain ⟨child, member, inside⟩ := inside
  refine ⟨use, listed, place, known, ?_⟩
  by_cases body : child = node
  · exact .inl (body ▸ inside)
  · exact .inr ⟨is, child, member, body, inside⟩

/-- What a declaration makes is apart from what literals make: it is no literal. -/
theorem pairwise_cons_literals {function : Place} {node : Node} {value : String} {more : List String}
    (declared : function.kind ≠ .funcLiteral) (apart : stitches.Pairwise Stitch.Apart)
    (literals : ∀ stitch ∈ stitches, ∀ other, stitch.maker? = some other → other.kind = .funcLiteral) :
    (.creation function node value more :: stitches).Pairwise Stitch.Apart := by
  refine List.pairwise_cons.2 ⟨fun stitch listed => ?_, apart⟩
  cases stitch with
  | creation other node' value' more' => exact fun same => declared (same ▸ literals _ listed other rfl)
  | argument => trivial
  | segment => trivial
  | other => trivial

/-- The parts of a plan put together. -/
theorem exists_woven (parsed : site.source.IsParsed) (member : decl ∈ FunctionDecl.all site.source)
    (found : decl.body = some body) (id : Nat) (entry : Option Entry) (tracks : scope.Tracks body) {uses : List Stitch}
    (right : ∀ stitch ∈ uses, stitch.Right site body ∧ stitch.maker? = none) (backed : Backed scope uses) :
    ∃ stitches : List Stitch, (site.signatureEdits id decl).edits ++ (site.creationEdits scope entry body.node).edits ++
      site.literalEdits scope ++ uses.map (·.edit site) = stitches.map (·.edit site) ∧ Woven site decl.place stitches := by
  have annotated := FunctionDecl.annotated_body parsed member found
  have closed := FunctionDecl.closed_body member found
  obtain ⟨block, child, _⟩ := FunctionDecl.body_spec parsed member found
  obtain ⟨_, kind, _, from'⟩ := FunctionDecl.of_mem_all member
  obtain ⟨node, has, rfl⟩ := Option.map_eq_some_iff.1 (from'.symm.trans found)
  have named : node.kind.isNamed = true := by
    change node.kind = .block at block
    rw [block]
    rfl
  have inside : Below decl.place (decl.place.inside node) := Below.here.inside (List.mem_filter.2 ⟨child, named⟩)
  obtain ⟨signature, edited, plain⟩ := site.signatureEdits_stitches id decl decl.place
  obtain ⟨entries, edited', made⟩ := site.creationEdits_stitches scope entry parsed member found
  obtain ⟨literals, edited'', apart, makers⟩ := literalEdits_stitches annotated (by rw [block]; simp) tracks
  have apart' : (entries ++ literals).Pairwise Stitch.Apart := by
    rcases made with rfl | ⟨_, value, more, rfl, _⟩
    · exact apart
    · refine pairwise_cons_literals ?_ apart fun stitch listed other makes => ((makers stitch listed).2 other makes).1
      intro literal
      rw [literal] at kind
      cases kind
  refine ⟨signature ++ (entries ++ literals ++ uses), ?_, ?_, ?_, ?_⟩
  · rw [edited, edited', edited'']
    simp only [List.map_append, List.append_assoc]
  · refine List.forall_mem_append.2 ⟨fun stitch listed => (plain stitch listed).1, List.forall_mem_append.2
      ⟨List.forall_mem_append.2 ⟨?_, fun stitch listed => (makers stitch listed).1.mono inside⟩,
        fun stitch listed => (right stitch listed).1.mono inside⟩⟩
    intro stitch listed
    rcases made with rfl | ⟨_, value, more, rfl, is⟩
    · cases listed
    · rw [List.mem_singleton.1 listed]
      exact is
  · exact pairwise_plain_append plain (pairwise_append_idle apart' fun stitch listed => (right stitch listed).2)
  · have among : ∀ use ∈ uses, use ∈ signature ++ (entries ++ literals ++ uses) := fun use listed =>
      List.mem_append_right _ (List.mem_append_right _ listed)
    intro function node' value more listed
    rcases List.mem_append.1 listed with listed | listed
    · cases (plain _ listed).2.1
    rcases List.mem_append.1 listed with listed | listed
    · rcases List.mem_append.1 listed with listed | listed
      · rcases made with rfl | ⟨used, value, more, rfl, _⟩
        · cases listed
        · cases List.mem_singleton.1 listed
          obtain ⟨use, listed, place, known⟩ := backed.used used
          exact ⟨use, among use listed, place, known, .inl ((right use listed).1.below_use known)⟩
      · obtain ⟨is, one, noted, same⟩ := (makers _ listed).2 _ rfl
        obtain ⟨use, listed', serves⟩ := backed.serves annotated closed (fun stitch member => (right stitch member).1) noted
          same is ((makers _ listed).1.below_maker rfl) node'
        exact ⟨use, among use listed', serves⟩
    · cases (right _ listed).2

variable {withDeferred : Bool} {made : HandleEdits}

/-- Calls and then statements have been looked at. -/
theorem Asked.woven {calls waited : List Edit × HandleScope} {new : List Stitch} (parsed : site.source.IsParsed)
    (member : decl ∈ FunctionDecl.all site.source) (found : decl.body = some body) (id : Nat) (entry : Option Entry)
    (asked : site.Asked body ([], site.firstScope id) calls stitches) (asked' : site.Asked body ([], calls.2) waited new) :
    ∃ stitches : List Stitch, (site.signatureEdits id decl).edits ++ (site.creationEdits waited.2 entry body.node).edits ++
      site.literalEdits waited.2 ++ calls.1 ++ waited.1 = stitches.map (·.edit site) ∧ Woven site decl.place stitches := by
  have start : Backed (site.firstScope id) [] := ⟨by simp [firstScope], by simp [firstScope]⟩
  obtain ⟨all, edited, woven⟩ := exists_woven parsed member found id entry asked'.tracks
    (List.forall_mem_append.2 ⟨asked.right, asked'.right⟩) (asked'.backed stitches (asked.backed [] start))
  refine ⟨all, ?_, woven⟩
  rw [← edited, asked.edits, asked'.edits, List.map_append, List.nil_append, List.nil_append, List.append_assoc]

theorem declEdits_woven (parsed : site.source.IsParsed) (builtIn : site.setup.catalog = Catalog.builtIn)
    (member : decl ∈ FunctionDecl.all site.source) (done : site.declEdits withDeferred decl = .ok made) :
    ∃ stitches : List Stitch, made.edits = stitches.map (·.edit site) ∧ Woven site decl.place stitches := by
  unfold declEdits at done
  split at done
  · rename_i id body known found
    have annotated := FunctionDecl.annotated_body parsed member found
    have closed := FunctionDecl.closed_body member found
    obtain ⟨calls, asked⟩ := foldl_callEdit_asked (.ofDecl site.program site.package site.imports decl) annotated closed
      (show (([], site.firstScope id) : List Edit × HandleScope).2.Tracks body from site.firstScope_tracks id body)
      (fun place met => Go.Place.mem_descendants.1 met)
    dsimp only at done
    split at done
    · obtain ⟨result, waited, done⟩ := exists_of_bind_eq_ok done
      cases done
      obtain ⟨deferred, asked'⟩ := deferredEdits_asked builtIn annotated closed asked.tracks waited
      exact asked.woven parsed member found id _ asked'
    · cases done
      have idle : ∀ edits, site.Asked body (edits, _) (edits, _) [] := fun edits => .refl asked.tracks
      exact asked.woven parsed member found id _ (idle [])
  · cases done
    exact ⟨[], rfl, by simp, .nil, by simp⟩

/-! Whole files. -/

/-- Declarations have no places in common. -/
theorem not_below_both (parsed : site.source.IsParsed) {a b : FunctionDecl} (member : a ∈ FunctionDecl.all site.source)
    (member' : b ∈ FunctionDecl.all site.source) (before : a.place.stop ≤ b.place.start) {place : Place}
    (below : Below a.place place) : ¬ Below b.place place := by
  intro below'
  have wide : a.place.node.start < a.place.node.stop := by
    obtain ⟨list, has, annotated, is⟩ := FunctionDecl.exists_parameters parsed member
    obtain ⟨listed, _, child, _⟩ := FunctionDecl.of_mem_all member
    obtain ⟨node, first, rfl⟩ := Option.map_eq_some_iff.1 (child.symm.trans has)
    exact (FunctionDecl.annotated_of_mem_parts parsed listed).wide_of_child (List.mem_of_find?_eq_some first)
      (annotated.opens_wide (by rw [is]; rfl))
  obtain ⟨node, _, same⟩ := List.mem_map.1 (FunctionDecl.of_mem_all member).1
  obtain ⟨node', _, same'⟩ := List.mem_map.1 (FunctionDecl.of_mem_all member').1
  obtain ⟨inner, split⟩ := below.exists_outward
  obtain ⟨inner', split'⟩ := below'.exists_outward
  rw [← same] at wide before split
  rw [← same'] at before split'
  have equal : node = node' := (List.cons.inj (List.append_inj' (split.symm.trans split') rfl).2).1
  change node.start < node.stop at wide
  change node.stop ≤ node'.start at before
  rw [← equal] at before
  omega

theorem Woven.append {stitches' : List Stitch} (woven : Woven site top stitches) (woven' : Woven site body stitches')
    (below : Below body top) (apart : ∀ stitch ∈ stitches', ∃ top', stitch.Right site top' ∧
      ∀ place, Below top place → ¬ Below top' place) : Woven site body (stitches ++ stitches') := by
  refine ⟨List.forall_mem_append.2 ⟨fun stitch listed => (woven.right stitch listed).mono below, woven'.right⟩,
    List.pairwise_append.2 ⟨woven.apart, woven'.apart, ?_⟩, ?_⟩
  · intro a listed b listed'
    have right := woven.right a listed
    obtain ⟨top', right', apart⟩ := apart b listed'
    cases b with
    | creation function' =>
        cases a with
        | creation =>
            rintro rfl
            exact apart _ (right.below_maker rfl) (right'.below_maker rfl)
        | segment => exact fun inside => apart _ (right.below_use rfl) (right'.below_body.trans inside)
        | argument => trivial
        | other => trivial
    | argument => exact Stitch.apart_of_plain rfl
    | segment => exact Stitch.apart_of_plain rfl
    | other => exact Stitch.apart_of_plain rfl
  · intro function node value more listed
    rcases List.mem_append.1 listed with listed | listed
    · obtain ⟨use, member, serves⟩ := woven.served function node value more listed
      exact ⟨use, List.mem_append_left _ member, serves⟩
    · obtain ⟨use, member, serves⟩ := woven'.served function node value more listed
      exact ⟨use, List.mem_append_right _ member, serves⟩

theorem mapM_declEdits_woven (parsed : site.source.IsParsed) (builtIn : site.setup.catalog = Catalog.builtIn)
    {decls : List FunctionDecl} {parts : List HandleEdits} (members : ∀ decl ∈ decls, decl ∈ FunctionDecl.all site.source)
    (order : decls.Pairwise fun a b => a.place.stop ≤ b.place.start)
    (done : decls.mapM (site.declEdits withDeferred) = .ok parts) :
    ∃ stitches : List Stitch, parts.flatMap (·.edits) = stitches.map (·.edit site) ∧
      Woven site site.source.rootPlace stitches ∧ ∀ stitch ∈ stitches, ∃ decl ∈ decls, stitch.Right site decl.place := by
  induction decls generalizing parts with
  | nil =>
      cases done
      exact ⟨[], rfl, ⟨by simp, .nil, by simp⟩, by simp⟩
  | cons decl decls ih =>
      obtain ⟨member, members⟩ := List.forall_mem_cons.1 members
      obtain ⟨before, order⟩ := List.pairwise_cons.1 order
      rw [List.mapM_cons] at done
      obtain ⟨made, first, done⟩ := exists_of_bind_eq_ok done
      obtain ⟨rest, later, done⟩ := exists_of_bind_eq_ok done
      cases done
      obtain ⟨stitches, edited, woven⟩ := declEdits_woven parsed builtIn member first
      obtain ⟨stitches', edited', woven', homes⟩ := ih members order later
      refine ⟨stitches ++ stitches', ?_, ?_, List.forall_mem_append.2 ⟨?_, ?_⟩⟩
      · rw [List.flatMap_cons, edited, edited', List.map_append]
      · refine woven.append woven' (below_of_mem_parts (FunctionDecl.of_mem_all member).1) fun stitch listed => ?_
        obtain ⟨other, listed, right⟩ := homes stitch listed
        exact ⟨other.place, right, fun _ => not_below_both parsed member (members other listed) (before other listed)⟩
      · exact fun stitch listed => ⟨decl, List.mem_cons_self, woven.right stitch listed⟩
      · intro stitch listed
        obtain ⟨other, listed, right⟩ := homes stitch listed
        exact ⟨other, List.mem_cons_of_mem _ listed, right⟩

theorem fileLevelEdits_stitches (site : HandleSite) (here : Surroundings) (source : Source) :
    ∃ stitches : List Stitch, fileLevelEdits site.graph site.plan.widens here source = stitches.map (·.edit site) ∧
      ∀ stitch ∈ stitches, site.Plain site.source.rootPlace stitch := by
  refine ⟨(fileLevelEdits site.graph site.plan.widens here source).map .other, ?_, fun stitch listed => ?_⟩
  · rw [List.map_map]
    exact (List.map_id _).symm
  · obtain ⟨edit, planned, rfl⟩ := List.mem_map.1 listed
    obtain ⟨item, _, planned⟩ := List.mem_flatMap.1 planned
    obtain ⟨call, _, planned⟩ := List.mem_filterMap.1 planned
    obtain ⟨callee, _, planned⟩ := Option.bind_eq_some_iff.1 planned
    obtain ⟨list, _, rfl⟩ := Option.map_eq_some_iff.1 planned
    exact ⟨.nothing list callee.handleIndex, rfl, fun _ => trivial⟩

/-- What the second pass plans for a file. -/
theorem fileEdits_woven (parsed : site.source.IsParsed) (builtIn : site.setup.catalog = Catalog.builtIn)
    (done : site.fileEdits withDeferred = .ok made) :
    ∃ stitches : List Stitch, made.edits = stitches.map (·.edit site) ∧ Woven site site.source.rootPlace stitches := by
  unfold fileEdits at done
  obtain ⟨parts, mapped, done⟩ := exists_of_bind_eq_ok done
  cases done
  obtain ⟨stitches, edited, woven, _⟩ :=
    mapM_declEdits_woven parsed builtIn (fun _ => id) (FunctionDecl.all_pairwise parsed) mapped
  obtain ⟨stitches', edited', plain⟩ := site.fileLevelEdits_stitches
    (.ofFile site.program site.package site.imports) site.source
  refine ⟨stitches ++ stitches', by rw [edited, edited', List.map_append], ?_, ?_, ?_⟩
  · exact List.forall_mem_append.2 ⟨woven.right, fun stitch listed => (plain stitch listed).1⟩
  · exact pairwise_append_idle woven.apart fun stitch listed => (plain stitch listed).2.1
  · intro function node value more listed
    rcases List.mem_append.1 listed with listed | listed
    · obtain ⟨use, member, serves⟩ := woven.served function node value more listed
      exact ⟨use, List.mem_append_left _ member, serves⟩
    · cases (plain _ listed).2.1

end HandleSite

/-! What comes first. -/

namespace Source

variable {source : Source} {block place : Place} {statement : Node}

/-- Lines at the start of a block go before its statements. -/
theorem start_addAtStart_le (parsed : source.IsParsed) (below : Below source.rootPlace block) (is : block.node.kind = .block)
    (listed : statement ∈ block.node.statements) (lines : List String) :
    (Edit.addAtStart source.text block.node lines).start ≤ Edit.front source.text statement ∧
      (Edit.addAtStart source.text block.node lines).stop = (Edit.addAtStart source.text block.node lines).start := by
  have order := statements_pairwise parsed below is
  have bounds : ∀ other ∈ block.node.statements, Edit.front source.text other ≤ Edit.rear source.text other :=
    fun other listed => ((framed parsed below is listed).seat_bounds true).1
  unfold Edit.addAtStart
  cases same : block.node.statements with
  | nil =>
      rw [same] at listed
      cases listed
  | cons first rest =>
      obtain ⟨start, stop⟩ := Edit.start_addBeforeFirst source.text first lines
      rw [List.head?_cons]
      dsimp only
      refine ⟨?_, stop.trans start.symm⟩
      rw [start]
      rw [same] at listed order bounds
      rcases List.mem_cons.1 listed with rfl | later
      · exact Nat.le_refl _
      · exact (bounds first List.mem_cons_self).trans ((List.pairwise_cons.1 order).1 statement later).le

/-- They go before everything in it. -/
theorem start_addAtStart_le_inside (parsed : source.IsParsed) (below : Below source.rootPlace block)
    (is : block.node.kind = .block) (inside : Inside block place) (solid : place.kind ≠ .comment) (lines : List String) :
    (Edit.addAtStart source.text block.node lines).start ≤ place.start := by
  obtain ⟨statement, listed, early, _⟩ := inside.exists_statement (below.annotated parsed.annotated) solid
  exact (start_addAtStart_le parsed below is listed lines).1.trans ((framed parsed below is listed).front_le.trans early)

/-- They go before the arguments of a call in it. -/
theorem start_addAtStart_lt_argument {call : Place} {list : Node} (parsed : source.IsParsed)
    (below : Below source.rootPlace block) (is : block.node.kind = .block) (below' : Below source.rootPlace call)
    (isCall : call.kind = .callExpression) (has : call.node.child? .arguments = some list) (inside : Below block call)
    (lines : List String) (index : Nat) (text : String) :
    (Edit.addAtStart source.text block.node lines).start < (Edit.addToArguments list index text).start := by
  have deep : Inside block call := by
    rcases inside.eq_or_inside with rfl | deep
    · cases isCall.symm.trans is
    · exact deep
  have annotated := below'.annotated parsed.annotated
  obtain ⟨list', has', kind⟩ := annotated.argumentList isCall
  cases has.symm.trans has'
  have formed := annotated.child? has
  have joins := Edit.addToArguments_joins formed (formed.shaped.opens (by rw [kind]; rfl)) index text
  have early := start_addAtStart_le_inside parsed below is deep (by rw [isCall]; simp) lines
  have bounds := annotated.shaped.chain.mem (List.mem_of_find?_eq_some has)
  have opened := joins.opened
  change _ ≤ call.node.start at early
  omega

/-- They go no later than what is put before a statement of a block in it. -/
theorem start_addAtStart_le_addBefore {home : Place} (parsed : source.IsParsed) (below : Below source.rootPlace block)
    (is : block.node.kind = .block) (below' : Below source.rootPlace home) (isBlock : home.node.kind = .block)
    (listed : statement ∈ home.node.statements) (inside : Below block home) (lines : List String) (text : String) :
    (Edit.addAtStart source.text block.node lines).start ≤ (Edit.addBefore source.text statement text).start := by
  obtain ⟨before, after, _, _, added⟩ := Edit.addBefore_eq source.text statement text
  rw [added]
  change _ ≤ Edit.front source.text statement
  rcases inside.eq_or_inside with rfl | deep
  · exact (start_addAtStart_le parsed below is listed _).1
  · have solid : home.kind ≠ .comment := by
      change home.node.kind ≠ .comment
      rw [isBlock]
      simp
    exact (start_addAtStart_le_inside parsed below is deep solid _).trans (framed parsed below' isBlock listed).behind.le

end Source

theorem pair_sublist_of_pairwise {α : Type} {r : α → α → Prop} {a b : α} {items : List α} (apart : items.Pairwise r)
    (listed : a ∈ items) (listed' : b ∈ items) (differ : a ≠ b) (turned : ¬ r b a) : [a, b].Sublist items := by
  obtain ⟨early, late, rfl⟩ := List.append_of_mem listed
  rcases List.mem_append.1 listed' with before | behind
  · exact absurd ((List.pairwise_append.1 apart).2.2 b before a List.mem_cons_self) turned
  · rcases List.mem_cons.1 behind with rfl | later
    · exact absurd rfl differ
    · exact List.sublist_append_of_sublist_right ((List.singleton_sublist.2 later).cons_cons a)

namespace HandleSite

/-- A batch for a file with its result, where the handle is made once in a function, for a use, and before all uses in
the body. -/
structure Creates (site : HandleSite) (stitches : List Stitch) (text : String) : Prop where
  performed : Edit.perform site.source.text (stitches.map (·.edit site)) = .ok text
  right : ∀ stitch ∈ stitches, stitch.Right site site.source.rootPlace
  once : (stitches.filterMap Stitch.maker?).Nodup
  served : ∀ function body value more, .creation function body value more ∈ stitches →
    ∃ use ∈ stitches, ∃ place, use.use? = some place ∧ Serves function body place
  leads : ∀ function body value more use place, .creation function body value more ∈ stitches → use ∈ stitches →
    use.use? = some place → Below (function.inside body) place →
      Edit.Leads site.source.text (stitches.map (·.edit site)) (Stitch.edit site (.creation function body value more))
        (use.edit site) text

variable {site : HandleSite} {stitches : List Stitch} {function place : Place} {body : Node} {value : String}
  {more : List String} {use : Stitch} {text : String}

/-- What is made at the start of a body goes before the uses in it. -/
theorem Woven.sublist_inOrder (woven : Woven site site.source.rootPlace stitches) (parsed : site.source.IsParsed)
    (made : .creation function body value more ∈ stitches) (listed : use ∈ stitches) (uses : use.use? = some place)
    (inside : Below (function.inside body) place) :
    [Stitch.edit site (.creation function body value more), use.edit site].Sublist
      (Edit.inOrder (stitches.map (·.edit site))) := by
  have right := woven.right _ made
  have below := right.below_body
  have member := List.mem_map_of_mem (f := (·.edit site)) made
  have member' := List.mem_map_of_mem (f := (·.edit site)) listed
  obtain ⟨is, outer⟩ : body.kind = .block ∧ function.kind ≠ .block := by
    cases right with
    | creation _ is _ block =>
        refine ⟨block, fun contrary => ?_⟩
        rw [contrary] at is
        rcases is with is | is <;> cases is
  cases woven.right use listed with
  | @argument call list below' isCall has index launched =>
      cases uses
      exact Edit.sublist_inOrder_of_lt member member'
        (Source.start_addAtStart_lt_argument parsed below is below' isCall has inside _ _ _)
  | @segment block statement below' isBlock part name label =>
      cases uses
      obtain ⟨node, held, rfl⟩ := List.mem_map.1 part
      have deep : Inside (function.inside body) (block.inside node) := by
        rcases inside.eq_or_inside with same | deep
        · have alike : block.node = function.node := (List.cons.inj (congrArg Place.around same)).1
          exact absurd (show function.node.kind = .block from alike ▸ isBlock) outer
        · exact deep
      have above : Below (function.inside body) block := by
        rcases inside.parent with same | ⟨_, _, same, _, above⟩
        · exact absurd (same ▸ deep) (Go.Place.not_inside_self _)
        · cases same
          exact above
      rcases Nat.lt_or_eq_of_le (Source.start_addAtStart_le_addBefore parsed below is below' isBlock held above
        ((site.handle ++ " := " ++ value) :: more)
        (name ++ " := " ++ site.handle ++ ".StartSegment(\"http." ++ label ++ "\")")) with less | same
      · exact Edit.sublist_inOrder_of_lt member member' less
      · -- at the same offset it counts that the creation was planned first
        have pair : [Stitch.creation function body value more, .segment (block.inside node) name label].Sublist stitches :=
          pair_sublist_of_pairwise woven.apart made listed nofun fun apart => apart inside
        obtain ⟨statement, busy, _⟩ := deep.exists_statement (below.annotated parsed.annotated) (Edit.mem_parts held).2.2
        exact Edit.sublist_inOrder_of_eq (pair.map _) same (Source.start_addAtStart_le parsed below is busy _).2
  | creation => cases uses
  | parameter => cases uses
  | nothing => cases uses
  | finish => cases uses

theorem Woven.creates (woven : Woven site site.source.rootPlace stitches) (parsed : site.source.IsParsed)
    (performed : Edit.perform site.source.text (stitches.map (·.edit site)) = .ok text) :
    site.Creates stitches text where
  performed := performed
  right := woven.right
  once := by
    refine List.pairwise_filterMap.2 (woven.apart.imp fun {a b} apart function makes function' makes' => ?_)
    cases a <;> cases makes
    cases b <;> cases makes'
    exact apart
  served := woven.served
  leads := fun _ _ _ _ _ _ made listed uses inside =>
    Edit.leads_of_sublist (woven.sublist_inOrder parsed made listed uses inside) performed

end HandleSite

namespace Setup

variable {setup : Setup} {run : Run} {entry : ProgramFile}

/-- The handle in a file that the second pass takes up, with any plan. -/
theorem propagateFile_creates (graph : CallGraph) (plan : HandlePlan) (file : Nat) (builtIn : setup.catalog = Catalog.builtIn)
    (parsed : run.program.IsParsed) (here : run.program.files[file]? = some entry) :
    ∃ stitches changed, (HandleSite.taking setup graph plan run entry).Creates stitches changed.text ∧
      (setup.propagateFile graph plan run file).program.source? file = some changed := by
  have parsed := parsed entry (List.mem_of_getElem? here)
  obtain ⟨withDeferred, made, done, final⟩ := setup.propagateFile_batch graph plan here
  obtain ⟨stitches, edited, woven⟩ := HandleSite.fileEdits_woven parsed builtIn done
  obtain ⟨changed, applied⟩ := HandleSite.fileEdits_accepted parsed builtIn done
  have performed := Source.perform_of_apply applied
  rw [edited] at performed
  refine ⟨stitches, changed, woven.creates parsed performed, ?_⟩
  rw [final]
  exact congrArg some (Source.applied_of_ok applied)

/-- A handler literal with a call in its signature. -/
def signatureCall : String :=
  "package p\nimport h \"net/http\"\nfunc f() \x7b_ = func(w h.ResponseWriter, r *h.Request) [g()]int \x7b\x7d\x7d\nfunc g()\n"

def signatureSetup : Setup := ⟨Catalog.builtIn, {}, ⟨[], []⟩⟩

def signatureGraph : CallGraph := ⟨CallGraph.functionsIn (soleProgram signatureCall) "nrTxn", [], []⟩

/-- The second function, `g`, takes the handle. -/
def signaturePlan : HandlePlan := ⟨[], [], [], [1], []⟩

theorem propagateFile_creates_signatureCall :
    (soleProgram signatureCall).IsParsed ∧ ∃ entry stitches changed,
      (soleProgram signatureCall).files[0]? = some entry ∧
      (HandleSite.taking signatureSetup signatureGraph signaturePlan (.start (soleProgram signatureCall) []) entry).Creates
        stitches changed.text ∧
      (signatureSetup.propagateFile signatureGraph signaturePlan (.start (soleProgram signatureCall) []) 0).program.source? 0 =
        some changed :=
  have parsed : (Run.start (soleProgram signatureCall) []).program.IsParsed := soleProgram_isParsed signatureCall
  have builtIn : signatureSetup.catalog = Catalog.builtIn := rfl
  have ⟨stitches, changed, creates, final⟩ := propagateFile_creates signatureGraph signaturePlan 0 builtIn parsed rfl
  ⟨parsed, _, stitches, changed, rfl, creates, final⟩

/-- The literal makes the handle in its body, and no other edit is in that body. -/
theorem signatureCall_makesUnused : ∃ entry made literal body,
    (soleProgram signatureCall).files[0]? = some entry ∧
    let site := HandleSite.taking signatureSetup signatureGraph signaturePlan (.start (soleProgram signatureCall) []) entry
    site.fileEdits true = .ok made ∧ Below site.source.rootPlace literal ∧ literal.kind = .funcLiteral ∧
      literal.node.child? .body = some body ∧
      Edit.addAtStart site.source.text body [site.fromRequest "r"] ∈ made.edits ∧
      ∀ edit ∈ made.edits, edit = Edit.addAtStart site.source.text body [site.fromRequest "r"] ∨
        edit.stop ≤ body.start ∨ body.stop ≤ edit.start := by
  have stands : (soleProgram signatureCall).files[0]?.any (fun entry =>
      let site := HandleSite.taking signatureSetup signatureGraph signaturePlan (.start (soleProgram signatureCall) []) entry
      (site.fileEdits true).toOption.any fun made => site.source.rootPlace.descendants.any fun literal =>
        literal.kind == .funcLiteral && (literal.node.child? .body).any fun body =>
          let creation := Edit.addAtStart site.source.text body [site.fromRequest "r"]
          made.edits.contains creation && made.edits.all fun edit =>
            edit == creation || decide (edit.stop ≤ body.start) || decide (body.stop ≤ edit.start)) = true := by
    decide +kernel
  obtain ⟨entry, here, stands⟩ := (Option.any_eq_true _ _).1 stands
  obtain ⟨made, done, stands⟩ := exists_of_any_toOption stands
  obtain ⟨literal, met, stands⟩ := List.any_eq_true.1 stands
  obtain ⟨is, stands⟩ := Bool.and_eq_true_iff.1 stands
  obtain ⟨body, has, stands⟩ := (Option.any_eq_true _ _).1 stands
  obtain ⟨made', apart⟩ := Bool.and_eq_true_iff.1 stands
  refine ⟨entry, made, literal, body, here, done, Go.Place.mem_descendants.1 met, beq_iff_eq.1 is, has,
    List.contains_iff_mem.1 made', fun edit planned => ?_⟩
  have place := List.all_eq_true.1 apart edit planned
  simp only [Bool.or_eq_true, beq_iff_eq, decide_eq_true_eq] at place
  rcases place with (same | early) | late
  · exact .inl same
  · exact .inr (.inl early)
  · exact .inr (.inr late)

end Setup
end TraceWeave
