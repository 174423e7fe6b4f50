import TraceWeave.Proofs.Go.Places
import TraceWeave.Weave.HandleScope

/-!
What an answer about the handle rests on. Where it is said to be known, the function around or a
literal around provides it; literals that were judged before give the answer they gave then, because
a literal is known by where it begins. What was noted for one answer is still noted for later ones.
-/
namespace TraceWeave.HandleScope

open Go (Node Place)
open Go.Node (Annotated)
open Go.Place (Below)

/-- The kind of a literal. -/
def judge (scope : HandleScope) (literal : Node) (around : List Node) : LiteralKind :=
  LiteralKind.judge scope.source.text scope.handle scope.http literal around

/-- What makes the handle known below the given nodes, innermost first. -/
inductive Grounded (scope : HandleScope) : List Node → Prop where
  /-- The function itself has the handle, and it is noted that it is used. -/
  | bare (available : scope.available = true) (used : scope.used = true) : Grounded scope []
  | function {node : Node} {around : List Node} (is : node.kind.isFunction = true)
      (available : scope.available = true) (used : scope.used = true) : Grounded scope (node :: around)
  | own {literal : Node} {around : List Node} (is : literal.kind = .funcLiteral)
      (judged : scope.judge literal around = .own) : Grounded scope (literal :: around)
  | handler {literal : Node} {around : List Node} {request : String} (is : literal.kind = .funcLiteral)
      (judged : scope.judge literal around = .handler request) (noted : ⟨literal, request⟩ ∈ scope.handlers) :
      Grounded scope (literal :: around)
  | launched {literal launch : Node} {around : List Node} {index : Nat} (is : literal.kind = .funcLiteral)
      (judged : scope.judge literal around = .launched launch index)
      (noted : ⟨literal, launch, index⟩ ∈ scope.launched) (outer : Grounded scope around) :
      Grounded scope (literal :: around)
  /-- Nothing changes at the node, or the literal uses the handle around it. -/
  | outer {node : Node} {around : List Node} (outer : Grounded scope around) : Grounded scope (node :: around)

/-- What stays and what may be added while answers are given. -/
structure Grows (before after : HandleScope) : Prop where
  source : after.source = before.source
  handle : after.handle = before.handle
  http : after.http = before.http
  available : after.available = before.available
  used : before.used = true → after.used = true
  launched : ∀ found ∈ before.launched, found ∈ after.launched
  handlers : ∀ found ∈ before.handlers, found ∈ after.handlers

/-- What is noted about literals of the tree below `top` is right. -/
structure Tracks (top : Place) (scope : HandleScope) : Prop where
  judged : ∀ entry ∈ scope.judged, entry.1.kind = .funcLiteral ∧
    ∃ around, Below top ⟨entry.1, around⟩ ∧ (entry.2 = true → Grounded scope (entry.1 :: around))
  launched : ∀ found ∈ scope.launched, found.literal.kind = .funcLiteral ∧
    ∃ around, Below top ⟨found.literal, around⟩ ∧
      scope.judge found.literal around = .launched found.launch found.index ∧ Grounded scope around
  handlers : ∀ found ∈ scope.handlers, found.literal.kind = .funcLiteral ∧
    ∃ around, Below top ⟨found.literal, around⟩ ∧ scope.judge found.literal around = .handler found.request
  recorded : ∀ found ∈ scope.handlers, (scope.known? found.literal).isSome = true
  once : scope.handlers.Pairwise fun a b => a.literal.isSame b.literal = false

/-- The place stands directly in a function, or in nothing. -/
def Closed (top : Place) : Prop := ∀ node ∈ top.around.head?, node.kind.isFunction = true

/-- Nodes around a place at or below the top. -/
def Around (top : Place) (around : List Node) : Prop :=
  around = top.around ∨ ∃ node rest, around = node :: rest ∧ Below top ⟨node, rest⟩

variable {sound : Nat → Prop} {top place : Place} {scope before middle after : HandleScope} {literal node : Node}
  {around : List Node}

theorem Grows.refl (scope : HandleScope) : Grows scope scope :=
  ⟨rfl, rfl, rfl, rfl, id, fun _ => id, fun _ => id⟩

theorem Grows.trans (first : Grows before middle) (second : Grows middle after) : Grows before after where
  source := second.source.trans first.source
  handle := second.handle.trans first.handle
  http := second.http.trans first.http
  available := second.available.trans first.available
  used := fun used => second.used (first.used used)
  launched := fun found noted => second.launched found (first.launched found noted)
  handlers := fun found noted => second.handlers found (first.handlers found noted)

theorem Grows.judge (grows : Grows before after) (literal : Node) (around : List Node) :
    after.judge literal around = before.judge literal around := by
  rw [HandleScope.judge, HandleScope.judge, grows.source, grows.handle, grows.http]

theorem Grounded.grows (grounded : Grounded before around) (grows : Grows before after) : Grounded after around := by
  induction grounded with
  | bare available used => exact .bare (grows.available.trans available) (grows.used used)
  | function is available used => exact .function is (grows.available.trans available) (grows.used used)
  | own is judged => exact .own is ((grows.judge _ _).trans judged)
  | handler is judged noted => exact .handler is ((grows.judge _ _).trans judged) (grows.handlers _ noted)
  | launched is judged noted _ ih =>
      exact .launched is ((grows.judge _ _).trans judged) (grows.launched _ noted) ih
  | outer _ ih => exact .outer ih

/-- Growth that notes no literal. -/
theorem Tracks.grows (tracks : Tracks top before) (grows : Grows before after) (judged : after.judged = before.judged)
    (launched : after.launched = before.launched) (handlers : after.handlers = before.handlers) :
    Tracks top after := by
  refine ⟨?_, ?_, ?_, ?_, handlers ▸ tracks.once⟩
  · intro entry member
    rw [judged] at member
    obtain ⟨is, around, below, grounded⟩ := tracks.judged entry member
    exact ⟨is, around, below, fun answer => (grounded answer).grows grows⟩
  · intro found member
    rw [launched] at member
    obtain ⟨is, around, below, kind, grounded⟩ := tracks.launched found member
    exact ⟨is, around, below, (grows.judge _ _).trans kind, grounded.grows grows⟩
  · intro found member
    rw [handlers] at member
    obtain ⟨is, around, below, kind⟩ := tracks.handlers found member
    exact ⟨is, around, below, (grows.judge _ _).trans kind⟩
  · intro found member
    rw [handlers] at member
    rw [known?, judged]
    exact tracks.recorded found member

/-- Outwards, the function comes directly after the top. -/
theorem Around.below (inside : Around top (node :: around)) (closed : Closed top)
    (apart : ¬ node.kind.isFunction = true) : Below top ⟨node, around⟩ := by
  rcases inside with same | ⟨head, rest, same, below⟩
  · exact absurd (closed node (by rw [← same]; rfl)) apart
  · cases same
    exact below

theorem Around.tail (inside : Around top (node :: around)) (closed : Closed top)
    (apart : ¬ node.kind.isFunction = true) : Around top around := by
  rcases (inside.below closed apart).parent with rfl | ⟨outer, rest, same, _, below⟩
  · exact .inl rfl
  · exact .inr ⟨outer, rest, same, below⟩

theorem around_of_below (below : Below top place) : Around top place.around := by
  rcases below.parent with rfl | ⟨node, rest, same, _, below⟩
  · exact .inl rfl
  · exact .inr ⟨node, rest, same, below⟩

/-! Steps. -/

theorem remember_grows (scope : HandleScope) (literal : Node) (answer : Bool) :
    Grows scope (scope.remember literal answer) := ⟨rfl, rfl, rfl, rfl, id, fun _ => id, fun _ => id⟩

theorem addHandler_grows (scope : HandleScope) (literal : Node) (request : String) :
    Grows scope (scope.addHandler literal request) :=
  ⟨rfl, rfl, rfl, rfl, id, fun _ => id, fun _ noted => List.mem_append_left _ noted⟩

theorem addLaunched_grows (scope : HandleScope) (literal launch : Node) (index : Nat) :
    Grows scope (scope.addLaunched literal launch index) :=
  ⟨rfl, rfl, rfl, rfl, id, fun _ noted => List.mem_append_left _ noted, fun _ => id⟩

theorem noteUnnamed_grows (scope : HandleScope) (literal : Node) : Grows scope (scope.noteUnnamed literal) :=
  ⟨rfl, rfl, rfl, rfl, id, fun _ => id, fun _ => id⟩

theorem atFunction_grows (scope : HandleScope) : Grows scope scope.atFunction.2 :=
  ⟨rfl, rfl, rfl, rfl, fun used => by simp [atFunction, used], fun _ => id, fun _ => id⟩

theorem known?_congr {other : Node} (same : literal.isSame other = true) :
    scope.known? literal = scope.known? other := by
  have alike : ∀ node : Node, node.isSame literal = node.isSame other := by
    intro node
    simp only [Node.isSame, Bool.and_eq_true, beq_iff_eq] at same
    rw [Node.isSame, Node.isSame, same.1.1, same.1.2, same.2]
  unfold known?
  simp only [alike]

theorem known?_remember (scope : HandleScope) (literal other : Node) (answer : Bool) :
    (scope.remember literal answer).known? other = if literal.isSame other then some answer else scope.known? other := by
  unfold known? remember
  dsimp only
  rw [List.find?_cons]
  cases literal.isSame other <;> rfl

theorem Tracks.remember (tracks : Tracks top scope) {answer : Bool} (is : literal.kind = .funcLiteral)
    (below : Below top ⟨literal, around⟩) (grounded : answer = true → Grounded scope (literal :: around)) :
    Tracks top (scope.remember literal answer) := by
  have grows := remember_grows scope literal answer
  refine ⟨?_, ?_, tracks.handlers, ?_, tracks.once⟩
  · intro entry member
    rcases List.mem_cons.1 member with rfl | old
    · exact ⟨is, around, below, fun yes => (grounded yes).grows grows⟩
    · obtain ⟨is, around, below, grounded⟩ := tracks.judged entry old
      exact ⟨is, around, below, fun yes => (grounded yes).grows grows⟩
  · intro found member
    obtain ⟨is, around, below, kind, grounded⟩ := tracks.launched found member
    exact ⟨is, around, below, kind, grounded.grows grows⟩
  · intro found member
    rw [known?_remember]
    split
    · rfl
    · exact tracks.recorded found member

/-- A handler that was not known is noted and remembered. -/
theorem Tracks.addHandler (tracks : Tracks top scope) {request : String} (is : literal.kind = .funcLiteral)
    (below : Below top ⟨literal, around⟩) (kind : scope.judge literal around = .handler request)
    (unknown : scope.known? literal = none) :
    Tracks top ((scope.addHandler literal request).remember literal true) := by
  have grows := (addHandler_grows scope literal request).trans (remember_grows _ literal true)
  refine ⟨?_, ?_, ?_, ?_, ?_⟩
  · intro entry member
    rcases List.mem_cons.1 member with rfl | old
    · refine ⟨is, around, below, fun _ => ?_⟩
      exact .handler is ((grows.judge _ _).trans kind) (List.mem_append_right _ (List.mem_singleton.2 rfl))
    · obtain ⟨is, around, below, grounded⟩ := tracks.judged entry old
      exact ⟨is, around, below, fun yes => (grounded yes).grows grows⟩
  · intro found member
    obtain ⟨is, around, below, kind, grounded⟩ := tracks.launched found member
    exact ⟨is, around, below, kind, grounded.grows grows⟩
  · intro found member
    rcases List.mem_append.1 member with old | new
    · exact tracks.handlers found old
    · cases List.mem_singleton.1 new
      exact ⟨is, around, below, kind⟩
  · intro found member
    rw [known?_remember]
    split
    · rfl
    · rename_i other
      rcases List.mem_append.1 member with old | new
      · exact tracks.recorded found old
      · cases List.mem_singleton.1 new
        exact absurd (Node.isSame_refl literal) other
  · refine List.pairwise_append.2 ⟨tracks.once, List.pairwise_singleton _ _, ?_⟩
    intro found old new member
    cases List.mem_singleton.1 member
    by_contra same
    have recorded := tracks.recorded found old
    rw [known?_congr (Bool.not_eq_false _ ▸ same), unknown] at recorded
    cases recorded

theorem Tracks.addLaunched (tracks : Tracks top scope) {launch : Node} {index : Nat}
    (is : literal.kind = .funcLiteral) (below : Below top ⟨literal, around⟩)
    (kind : scope.judge literal around = .launched launch index) (outer : Grounded scope around) :
    Tracks top (scope.addLaunched literal launch index) := by
  have grows := addLaunched_grows scope literal launch index
  refine ⟨?_, ?_, tracks.handlers, tracks.recorded, tracks.once⟩
  · intro entry member
    obtain ⟨is, around, below, grounded⟩ := tracks.judged entry member
    exact ⟨is, around, below, fun yes => (grounded yes).grows grows⟩
  · intro found member
    rcases List.mem_append.1 member with old | new
    · obtain ⟨is, around, below, kind, grounded⟩ := tracks.launched found old
      exact ⟨is, around, below, kind, grounded.grows grows⟩
    · cases List.mem_singleton.1 new
      exact ⟨is, around, below, kind, outer.grows grows⟩

/-- An answer, and the notes it leaves. -/
structure Answered (top : Place) (scope : HandleScope) (around : List Node) (result : Bool × HandleScope) : Prop where
  grows : Grows scope result.2
  tracks : Tracks top result.2
  grounded : result.1 = true → Grounded result.2 around

theorem Answered.outward {result : Bool × HandleScope} (answered : Answered top scope around result) :
    Answered top scope (node :: around) result :=
  ⟨answered.grows, answered.tracks, fun yes => .outer (answered.grounded yes)⟩

theorem Answered.remember {result : Bool × HandleScope} (answered : Answered top scope (literal :: around) result)
    (is : literal.kind = .funcLiteral) (below : Below top ⟨literal, around⟩) :
    Answered top scope (literal :: around) (result.1, result.2.remember literal result.1) := by
  have grows := remember_grows result.2 literal result.1
  exact ⟨answered.grows.trans grows, answered.tracks.remember is below answered.grounded,
    fun yes => (answered.grounded yes).grows grows⟩

/-- A goroutine literal takes the handle that is known around it. -/
theorem Answered.launch {scope' : HandleScope} (answered : Answered top scope around (true, scope'))
    (is : literal.kind = .funcLiteral) (below : Below top ⟨literal, around⟩) {launch : Node} {index : Nat}
    (kind : scope'.judge literal around = .launched launch index) :
    Answered top scope (literal :: around) (true, scope'.addLaunched literal launch index) := by
  have grows := scope'.addLaunched_grows literal launch index
  have outer : Grounded scope' around := answered.grounded rfl
  have noted : ⟨literal, launch, index⟩ ∈ (scope'.addLaunched literal launch index).launched := by simp [addLaunched]
  refine ⟨answered.grows.trans grows, answered.tracks.addLaunched is below kind outer, fun _ => ?_⟩
  exact .launched is ((grows.judge _ _).trans kind) noted (outer.grows grows)

theorem atFunction_answered (tracks : Tracks top scope)
    (grounded : ∀ scope' : HandleScope, scope'.available = true → scope'.used = true → Grounded scope' around) :
    Answered top scope around scope.atFunction := by
  have grows := scope.atFunction_grows
  refine ⟨grows, tracks.grows grows rfl rfl rfl, ?_⟩
  intro available
  have known : scope.available = true := available
  exact grounded _ known (by simp [atFunction, known])

/-- A literal that was judged before is the one at the same place. -/
theorem known?_grounded (annotated : Annotated sound top.node) (tracks : Tracks top scope)
    (is : literal.kind = .funcLiteral) (below : Below top ⟨literal, around⟩)
    (known : scope.known? literal = some true) : Grounded scope (literal :: around) := by
  obtain ⟨entry, found, answer⟩ := Option.map_eq_some_iff.1 known
  have same := List.find?_some found
  obtain ⟨is', around', below', grounded⟩ := tracks.judged entry (List.mem_of_find?_eq_some found)
  simp only [Node.isSame, Bool.and_eq_true, beq_iff_eq] at same
  have equal : (⟨entry.1, around'⟩ : Place) = ⟨literal, around⟩ :=
    Go.Place.literal_unique annotated below' below is' is same.1.2
  cases equal
  exact grounded answer

theorem consult_answered (annotated : Annotated sound top.node) (closed : Closed top) (tracks : Tracks top scope)
    (inside : Around top around) : Answered top scope around (scope.consult around) := by
  fun_induction consult scope around with
  | case1 => exact atFunction_answered tracks fun _ => .bare
  | case2 node around is => exact atFunction_answered tracks fun _ => .function is
  | case3 node around apart is answer known =>
      refine ⟨.refl _, tracks, fun yes => ?_⟩
      exact known?_grounded annotated tracks (beq_iff_eq.1 is) (inside.below closed apart)
        (known.trans (congrArg some yes))
  | case4 node around apart is _ kind =>
      have answered : Answered top scope (node :: around) (true, scope) :=
        ⟨.refl _, tracks, fun _ => .own (beq_iff_eq.1 is) kind⟩
      exact answered.remember (beq_iff_eq.1 is) (inside.below closed apart)
  | case5 node around apart is _ kind =>
      have grows := scope.noteUnnamed_grows node
      have silent : Answered top scope (node :: around) (false, scope.noteUnnamed node) :=
        ⟨grows, tracks.grows grows rfl rfl rfl, fun contrary => by cases contrary⟩
      exact silent.remember (beq_iff_eq.1 is) (inside.below closed apart)
  | case6 node around apart is unknown request kind =>
      have below := inside.below closed apart
      have noted : ⟨node, request⟩ ∈ (scope.addHandler node request).handlers := by simp [addHandler]
      exact ⟨(scope.addHandler_grows node request).trans (remember_grows _ node true),
        tracks.addHandler (beq_iff_eq.1 is) below kind unknown, fun _ => .handler (beq_iff_eq.1 is) kind noted⟩
  | case7 node around apart is _ launch index kind answer scope' consulted scope'' ih =>
      have below := inside.below closed apart
      have outer := ih (inside.tail closed apart)
      rw [consulted] at outer
      have noted : Answered top scope (node :: around) (answer, scope'') := by
        cases answer with
        | true => exact outer.launch (beq_iff_eq.1 is) below ((outer.grows.judge _ _).trans kind)
        | false => exact outer.outward
      exact noted.remember (beq_iff_eq.1 is) below
  | case8 node around apart is _ kind answer scope' consulted ih =>
      have outer := ih (inside.tail closed apart)
      rw [consulted] at outer
      exact outer.outward.remember (beq_iff_eq.1 is) (inside.below closed apart)
  | case9 node around apart _ ih => exact (ih (inside.tail closed apart)).outward

/-- The answer about a place of the tree. -/
theorem availableAt_answered (annotated : Annotated sound top.node) (closed : Closed top) (tracks : Tracks top scope)
    (below : Below top place) : Answered top scope place.around (scope.availableAt place) :=
  consult_answered annotated closed tracks (around_of_below below)

/-! Exact answers. -/

/-- Whether the handle is known below the given nodes, asked without notes. -/
def knows (scope : HandleScope) : List Node → Bool
  | [] => scope.available
  | node :: around =>
      if node.kind.isFunction then scope.available
      else if node.kind == .funcLiteral then
        match scope.judge node around with
        | .own | .handler _ => true
        | .unnamed => false
        | .launched _ _ | .inherited => knows scope around
      else knows scope around

/-- What is noted about literals is the answer one would get without notes. -/
def Exact (top : Place) (scope : HandleScope) : Prop :=
  ∀ entry ∈ scope.judged, entry.1.kind = .funcLiteral ∧
    ∃ around, Below top ⟨entry.1, around⟩ ∧ entry.2 = scope.knows (entry.1 :: around)

/-- Nothing was noted that leads to an edit. -/
structure Quiet (before after : HandleScope) : Prop where
  used : after.used = before.used
  launched : after.launched = before.launched
  handlers : after.handlers = before.handlers

/-- An answer is the one without notes, and if it is no, then it leads to no edit. -/
structure Exactly (top : Place) (scope : HandleScope) (around : List Node) (result : Bool × HandleScope) : Prop where
  grows : Grows scope result.2
  exact : Exact top result.2
  answer : result.1 = scope.knows around
  quiet : result.1 = false → Quiet scope result.2

theorem Grows.knows (grows : Grows before after) (around : List Node) : after.knows around = before.knows around := by
  induction around with
  | nil => exact grows.available
  | cons node around ih => simp only [HandleScope.knows, grows.available, grows.judge, ih]

theorem Exact.grows (exact : Exact top before) (grows : Grows before after) (judged : after.judged = before.judged) :
    Exact top after := by
  intro entry member
  rw [judged] at member
  obtain ⟨is, around, below, answer⟩ := exact entry member
  exact ⟨is, around, below, answer.trans (grows.knows _).symm⟩

theorem Quiet.refl (scope : HandleScope) : Quiet scope scope := ⟨rfl, rfl, rfl⟩

theorem Quiet.trans (first : Quiet before middle) (second : Quiet middle after) : Quiet before after :=
  ⟨second.used.trans first.used, second.launched.trans first.launched, second.handlers.trans first.handlers⟩

/-- The answer about a literal is noted. -/
theorem Exactly.remember {result : Bool × HandleScope} (answered : Exactly top scope (literal :: around) result)
    (is : literal.kind = .funcLiteral) (below : Below top ⟨literal, around⟩) :
    Exactly top scope (literal :: around) (result.1, result.2.remember literal result.1) := by
  have grows := remember_grows result.2 literal result.1
  refine ⟨answered.grows.trans grows, ?_, answered.answer, fun no => (answered.quiet no).trans ⟨rfl, rfl, rfl⟩⟩
  intro entry member
  rcases List.mem_cons.1 member with rfl | old
  · exact ⟨is, around, below, answered.answer.trans (((grows.knows _).trans (answered.grows.knows _)).symm)⟩
  · obtain ⟨is, around, below, answer⟩ := answered.exact entry old
    exact ⟨is, around, below, answer.trans (grows.knows _).symm⟩

theorem knows_literal (apart : ¬ literal.kind.isFunction = true) (is : (literal.kind == .funcLiteral) = true) :
    scope.knows (literal :: around) = match scope.judge literal around with
      | .own | .handler _ => true
      | .unnamed => false
      | .launched _ _ | .inherited => scope.knows around := by
  rw [HandleScope.knows, if_neg apart, if_pos is]

theorem known?_exact (annotated : Annotated sound top.node) (exact : Exact top scope)
    (is : literal.kind = .funcLiteral) (below : Below top ⟨literal, around⟩) {answer : Bool}
    (known : scope.known? literal = some answer) : answer = scope.knows (literal :: around) := by
  obtain ⟨entry, found, same⟩ := Option.map_eq_some_iff.1 known
  have test := List.find?_some found
  obtain ⟨is', around', below', right⟩ := exact entry (List.mem_of_find?_eq_some found)
  simp only [Node.isSame, Bool.and_eq_true, beq_iff_eq] at test
  have equal : (⟨entry.1, around'⟩ : Place) = ⟨literal, around⟩ :=
    Go.Place.literal_unique annotated below' below is' is test.1.2
  cases equal
  exact same.symm.trans right

theorem consult_exactly (annotated : Annotated sound top.node) (closed : Closed top) (exact : Exact top scope)
    (inside : Around top around) : Exactly top scope around (scope.consult around) := by
  fun_induction consult scope around with
  | case1 =>
      refine ⟨scope.atFunction_grows, exact.grows scope.atFunction_grows rfl, rfl, ?_⟩
      intro no
      exact ⟨by simp [atFunction, show scope.available = false from no], rfl, rfl⟩
  | case2 node around is =>
      refine ⟨scope.atFunction_grows, exact.grows scope.atFunction_grows rfl, ?_, ?_⟩
      · rw [HandleScope.knows, if_pos is]
        rfl
      · intro no
        exact ⟨by simp [atFunction, show scope.available = false from no], rfl, rfl⟩
  | case3 node around apart is answer known =>
      have right := known?_exact annotated exact (beq_iff_eq.1 is) (inside.below closed apart) known
      exact ⟨.refl _, exact, right, fun _ => .refl _⟩
  | case4 node around apart is _ kind =>
      have answered : Exactly top scope (node :: around) (true, scope) := by
        refine ⟨.refl _, exact, ?_, fun contrary => by cases contrary⟩
        rw [knows_literal apart is, HandleScope.judge, kind]
      exact answered.remember (beq_iff_eq.1 is) (inside.below closed apart)
  | case5 node around apart is _ kind =>
      have grows := scope.noteUnnamed_grows node
      have answered : Exactly top scope (node :: around) (false, scope.noteUnnamed node) := by
        refine ⟨grows, exact.grows grows rfl, ?_, fun _ => ⟨rfl, rfl, rfl⟩⟩
        rw [knows_literal apart is, HandleScope.judge, kind]
      exact answered.remember (beq_iff_eq.1 is) (inside.below closed apart)
  | case6 node around apart is _ request kind =>
      have grows := scope.addHandler_grows node request
      have answered : Exactly top scope (node :: around) (true, scope.addHandler node request) := by
        refine ⟨grows, exact.grows grows rfl, ?_, fun contrary => by cases contrary⟩
        rw [knows_literal apart is, HandleScope.judge, kind]
      exact answered.remember (beq_iff_eq.1 is) (inside.below closed apart)
  | case7 node around apart is _ launch index kind answer scope' consulted scope'' ih =>
      have outer := ih (inside.tail closed apart)
      rw [consulted] at outer
      have noted : Exactly top scope (node :: around) (answer, scope'') := by
        have right : answer = scope.knows (node :: around) := by
          rw [knows_literal apart is, HandleScope.judge, kind]
          exact outer.answer
        cases answer with
        | true =>
            have grows := scope'.addLaunched_grows node launch index
            exact ⟨outer.grows.trans grows, outer.exact.grows grows rfl, right, fun contrary => by cases contrary⟩
        | false => exact ⟨outer.grows, outer.exact, right, outer.quiet⟩
      exact noted.remember (beq_iff_eq.1 is) (inside.below closed apart)
  | case8 node around apart is _ kind answer scope' consulted ih =>
      have outer := ih (inside.tail closed apart)
      rw [consulted] at outer
      have noted : Exactly top scope (node :: around) (answer, scope') := by
        refine ⟨outer.grows, outer.exact, ?_, outer.quiet⟩
        rw [knows_literal apart is, HandleScope.judge, kind]
        exact outer.answer
      exact noted.remember (beq_iff_eq.1 is) (inside.below closed apart)
  | case9 node around apart is ih =>
      have outer := ih (inside.tail closed apart)
      refine ⟨outer.grows, outer.exact, ?_, outer.quiet⟩
      rw [HandleScope.knows, if_neg apart, if_neg is]
      exact outer.answer

/-- The answer about a place is the one without notes. -/
theorem availableAt_exactly (annotated : Annotated sound top.node) (closed : Closed top) (exact : Exact top scope)
    (below : Below top place) : Exactly top scope place.around (scope.availableAt place) :=
  consult_exactly annotated closed exact (around_of_below below)

end TraceWeave.HandleScope
