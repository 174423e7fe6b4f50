import Mathlib.Data.List.Sort
import TraceWeave.Proofs.HandleEdits
import TraceWeave.Proofs.Splice

/-!
Answers about the handle do not depend on the order of the questions. A question leads outwards, from literal to
literal, until one of them decides. What is noted on the way is noted for everything that was asked, whoever asked
first, so questions about the same places leave the same notes.
-/
namespace TraceWeave.HandleScope

open Go (Node Place)
open Go.Node (Annotated)
open Go.Place (Below)

/-- Ask about places, one after the other. -/
def availableAll (scope : HandleScope) : List Place → List Bool × HandleScope
  | [] => ([], scope)
  | place :: places =>
      let (answer, scope) := scope.availableAt place
      let (answers, scope) := scope.availableAll places
      (answer :: answers, scope)

/-- What a question leads to as long as no literal was judged. -/
def trail (scope : HandleScope) : List Node → List (List Node)
  | [] => [[]]
  | node :: around =>
      (node :: around) ::
        if node.kind.isFunction then []
        else if node.kind == .funcLiteral then
          match scope.judge node around with
          | .launched _ _ | .inherited => trail scope around
          | .own | .handler _ | .unnamed => []
        else trail scope around

/-- The function is directly around, or nothing is. -/
def Outermost (around : List Node) : Prop := ∀ node ∈ around.head?, node.kind.isFunction = true

/-- The note about a goroutine that cannot take the handle. -/
def unnamedNote (scope : HandleScope) (literal : Node) : Diagnostic :=
  .onLine .propagationBarrier scope.source.path (scope.source.nodeLine literal)
    "goroutine literal with unnamed parameters cannot take a tracing handle"

/-- What is noted of a literal when it is judged. -/
def noteJudged (scope : HandleScope) (literal : Node) (around : List Node) (answer : Bool) : HandleScope :=
  match scope.judge literal around with
  | .own | .inherited => scope
  | .unnamed => scope.noteUnnamed literal
  | .handler request => scope.addHandler literal request
  | .launched launch index => if answer then scope.addLaunched literal launch index else scope

variable {sound : Nat → Prop} {top : Place} {base scope : HandleScope} {literal node : Node} {around inner outer : List Node}
  {asked : List (List Node)} {answer : Bool}

/-! What a question leads to. -/

/-- A question ends at a node or goes on around it. -/
theorem trail_cons (scope : HandleScope) (node : Node) (around : List Node) :
    scope.trail (node :: around) = [node :: around] ∨
      scope.trail (node :: around) = (node :: around) :: scope.trail around := by
  rw [trail]
  split
  · exact .inl rfl
  · split
    · split
      · exact .inr rfl
      · exact .inr rfl
      all_goals exact .inl rfl
    · exact .inr rfl

theorem trail_suffix (member : inner ∈ scope.trail around) : inner <:+ around := by
  induction around with
  | nil =>
      rw [trail, List.mem_singleton] at member
      exact member ▸ List.suffix_rfl
  | cons node around ih =>
      rcases scope.trail_cons node around with ends | leads
      · rw [ends, List.mem_singleton] at member
        exact member ▸ List.suffix_rfl
      · rw [leads] at member
        rcases List.mem_cons.1 member with rfl | further
        · exact List.suffix_rfl
        · exact (ih further).trans (List.suffix_cons _ _)

/-- A question on the way leads to nothing new. -/
theorem trail_subset (member : inner ∈ scope.trail around) : scope.trail inner ⊆ scope.trail around := by
  induction around with
  | nil =>
      rw [trail, List.mem_singleton] at member
      rw [member]
      exact fun _ => id
  | cons node around ih =>
      rcases scope.trail_cons node around with ends | leads
      · rw [ends, List.mem_singleton] at member
        rw [member]
        exact fun _ => id
      · rw [leads] at member ⊢
        rcases List.mem_cons.1 member with rfl | further
        · rw [leads]
          exact fun _ => id
        · exact List.subset_cons_of_subset _ (ih further)

/-! What is noted. -/

/-- The notes are about what was asked, and about all of it. -/
@[mk_iff]
structure Noted (top : Place) (base : HandleScope) (asked : List (List Node)) (scope : HandleScope) : Prop where
  grows : Grows base scope
  /-- A literal was judged when it was asked about. -/
  judged : ∀ literal around, literal.kind = .funcLiteral → Below top ⟨literal, around⟩ →
    ((scope.known? literal).isSome = true ↔ literal :: around ∈ asked)
  used : scope.used = true ↔ base.available = true ∧ ∃ around ∈ asked, Outermost around
  launched : ∀ found, found ∈ scope.launched ↔ found.literal.kind = .funcLiteral ∧
    ∃ around, found.literal :: around ∈ asked ∧ base.judge found.literal around = .launched found.launch found.index ∧
      base.knows around = true
  handlers : ∀ found, found ∈ scope.handlers ↔ found.literal.kind = .funcLiteral ∧
    ∃ around, found.literal :: around ∈ asked ∧ base.judge found.literal around = .handler found.request
  notes : ∀ note, note ∈ scope.notes ↔ ∃ literal around, literal.kind = .funcLiteral ∧ literal :: around ∈ asked ∧
    base.judge literal around = .unnamed ∧ note = base.unnamedNote literal
  below : ∀ literal around, literal.kind = .funcLiteral → literal :: around ∈ asked → Below top ⟨literal, around⟩
  launchedOnce : scope.launched.Pairwise fun a b => a.literal.start ≠ b.literal.start
  handlersOnce : scope.handlers.Pairwise fun a b => a.literal.start ≠ b.literal.start

/-! One literal more. -/

theorem noteJudged_grows (scope : HandleScope) (literal : Node) (around : List Node) (answer : Bool) :
    Grows scope (scope.noteJudged literal around answer) := by
  unfold noteJudged
  split
  · exact .refl scope
  · exact .refl scope
  · exact scope.noteUnnamed_grows literal
  · exact scope.addHandler_grows literal _
  · split
    · exact scope.addLaunched_grows literal _ _
    · exact .refl scope

theorem noteJudged_judged : (scope.noteJudged literal around answer).judged = scope.judged := by
  unfold noteJudged
  split <;> try rfl
  split <;> rfl

theorem noteJudged_used : (scope.noteJudged literal around answer).used = scope.used := by
  unfold noteJudged
  split <;> try rfl
  split <;> rfl

theorem noteJudged_launched : (scope.noteJudged literal around answer).launched = scope.launched ++
    match scope.judge literal around with
    | .launched launch index => if answer then [⟨literal, launch, index⟩] else []
    | _ => [] := by
  unfold noteJudged
  cases scope.judge literal around <;> simp [noteUnnamed, addHandler, addLaunched]
  cases answer <;> simp

theorem noteJudged_handlers : (scope.noteJudged literal around answer).handlers = scope.handlers ++
    match scope.judge literal around with
    | .handler request => [⟨literal, request⟩]
    | _ => [] := by
  unfold noteJudged
  cases scope.judge literal around <;> simp [noteUnnamed, addHandler, addLaunched]
  cases answer <;> simp

theorem noteJudged_notes : (scope.noteJudged literal around answer).notes = scope.notes ++
    match scope.judge literal around with
    | .unnamed => [scope.unnamedNote literal]
    | _ => [] := by
  unfold noteJudged
  cases scope.judge literal around <;> simp [noteUnnamed, addHandler, addLaunched, unnamedNote]
  cases answer <;> simp

theorem exists_asked_cons {claims : List Node → Prop} {other : Node} :
    (∃ outer, other :: outer ∈ (literal :: around) :: asked ∧ claims outer) ↔
      (other = literal ∧ claims around) ∨ ∃ outer, other :: outer ∈ asked ∧ claims outer := by
  constructor
  · rintro ⟨outer, member, holds⟩
    rcases List.mem_cons.1 member with same | old
    · cases same
      exact .inl ⟨rfl, holds⟩
    · exact .inr ⟨outer, old, holds⟩
  · rintro (⟨rfl, holds⟩ | ⟨outer, old, holds⟩)
    · exact ⟨around, List.mem_cons_self, holds⟩
    · exact ⟨outer, List.mem_cons_of_mem _ old, holds⟩

/-- A literal that was asked about is not the one that was not. -/
theorem Noted.start_ne (annotated : Annotated sound top.node) (noted : Noted top base asked scope)
    (is : literal.kind = .funcLiteral) (below : Below top ⟨literal, around⟩) (fresh : literal :: around ∉ asked)
    {other : Node} (is' : other.kind = .funcLiteral) (old : other :: outer ∈ asked) : other.start ≠ literal.start := by
  intro same
  have equal : (⟨other, outer⟩ : Place) = ⟨literal, around⟩ :=
    Go.Place.literal_unique annotated (noted.below other outer is' old) below is' is same
  cases equal
  exact fresh old

theorem knows_launched (apart : ¬ literal.kind.isFunction = true) (is : literal.kind = .funcLiteral) {launch : Node}
    {index : Nat} (judged : base.judge literal around = .launched launch index) :
    base.knows (literal :: around) = base.knows around := by
  rw [knows_literal apart (beq_iff_eq.2 is), judged]

/-- A literal is judged that was not asked about before. -/
theorem Noted.judge (annotated : Annotated sound top.node) (noted : Noted top base asked scope)
    (is : literal.kind = .funcLiteral) (apart : ¬ literal.kind.isFunction = true) (below : Below top ⟨literal, around⟩)
    (fresh : literal :: around ∉ asked) (right : answer = base.knows (literal :: around)) :
    Noted top base ((literal :: around) :: asked) ((scope.noteJudged literal around answer).remember literal answer) := by
  have kind := noted.grows.judge literal around
  have source := noted.grows.source
  refine ⟨noted.grows.trans ((noteJudged_grows _ _ _ _).trans (remember_grows _ _ _)), ?_, ?_, ?_, ?_, ?_, ?_, ?_, ?_⟩
  · intro other outer is' below'
    rw [known?_remember]
    split
    · rename_i same
      simp only [Node.isSame, Bool.and_eq_true, beq_iff_eq] at same
      have equal : (⟨literal, around⟩ : Place) = ⟨other, outer⟩ :=
        Go.Place.literal_unique annotated below below' is is' same.1.2
      cases equal
      exact iff_of_true rfl List.mem_cons_self
    · rename_i differ
      have other_ne : other :: outer ≠ literal :: around := by
        intro same
        cases same
        exact differ (Node.isSame_refl _)
      rw [known?, noteJudged_judged, ← known?, noted.judged other outer is' below', List.mem_cons,
        or_iff_right other_ne]
  · rw [show ((scope.noteJudged literal around answer).remember literal answer).used = scope.used from noteJudged_used,
      noted.used]
    have inner : ¬ Outermost (literal :: around) := fun outermost => apart (outermost literal rfl)
    simp [inner]
  · intro found
    rw [exists_asked_cons, and_or_left, ← noted.launched,
      show ((scope.noteJudged literal around answer).remember literal answer).launched = _ from noteJudged_launched,
      List.mem_append, or_comm, kind]
    refine or_congr_left ⟨fun new => ?_, ?_⟩
    · split at new
      · rename_i launch index judged
        split at new
        · rename_i known
          cases List.mem_singleton.1 new
          exact ⟨is, rfl, judged, (knows_launched apart is judged).symm.trans (right.symm.trans known)⟩
        · cases new
      · cases new
    · rintro ⟨_, rfl, judged, known⟩
      have answered : answer = true := right.trans ((knows_launched apart is judged).trans known)
      simp [judged, answered]
  · intro found
    rw [exists_asked_cons, and_or_left, ← noted.handlers,
      show ((scope.noteJudged literal around answer).remember literal answer).handlers = _ from noteJudged_handlers,
      List.mem_append, or_comm, kind]
    refine or_congr_left ⟨fun new => ?_, ?_⟩
    · split at new
      · rename_i request judged
        cases List.mem_singleton.1 new
        exact ⟨is, rfl, judged⟩
      · cases new
    · rintro ⟨_, rfl, judged⟩
      simp [judged]
  · intro note
    rw [show ((scope.noteJudged literal around answer).remember literal answer).notes = _ from noteJudged_notes,
      List.mem_append, noted.notes, kind]
    constructor
    · rintro (⟨other, outer, is', old, rest⟩ | new)
      · exact ⟨other, outer, is', List.mem_cons_of_mem _ old, rest⟩
      · split at new
        · rename_i judged
          rw [unnamedNote, source, List.mem_singleton] at new
          exact ⟨literal, around, is, List.mem_cons_self, judged, new⟩
        · cases new
    · rintro ⟨other, outer, is', member, judged, rfl⟩
      rcases List.mem_cons.1 member with same | old
      · cases same
        simp [judged, unnamedNote, source]
      · exact .inl ⟨other, outer, is', old, judged, rfl⟩
  · intro other outer is' member
    rcases List.mem_cons.1 member with same | old
    · cases same
      exact below
    · exact noted.below other outer is' old
  · rw [show ((scope.noteJudged literal around answer).remember literal answer).launched = _ from noteJudged_launched]
    refine List.pairwise_append.2 ⟨noted.launchedOnce, ?_, ?_⟩
    · split
      · split <;> simp
      · exact .nil
    · intro found old new member
      obtain ⟨is', outer, asked', _⟩ := (noted.launched found).1 old
      have differ := noted.start_ne annotated is below fresh is' asked'
      split at member
      · split at member
        · cases List.mem_singleton.1 member
          exact differ
        · cases member
      · cases member
  · rw [show ((scope.noteJudged literal around answer).remember literal answer).handlers = _ from noteJudged_handlers]
    refine List.pairwise_append.2 ⟨noted.handlersOnce, ?_, ?_⟩
    · split <;> simp
    · intro found old new member
      obtain ⟨is', outer, asked', _⟩ := (noted.handlers found).1 old
      have differ := noted.start_ne annotated is below fresh is' asked'
      split at member
      · cases List.mem_singleton.1 member
        exact differ
      · cases member

/-- Where no literal begins, nothing is noted but that the handle of the function is used. -/
theorem Noted.pass (noted : Noted top base asked scope) {used : Bool}
    (apart : ∀ node ∈ around.head?, node.kind ≠ .funcLiteral)
    (right : used = true ↔ scope.used = true ∨ base.available = true ∧ Outermost around) :
    Noted top base (around :: asked) { scope with used } := by
  have apart : ∀ literal : Node, literal.kind = .funcLiteral → ∀ outer : List Node,
      literal :: outer ∈ around :: asked ↔ literal :: outer ∈ asked := by
    intro literal is outer
    rw [List.mem_cons, or_iff_right]
    rintro rfl
    exact apart literal rfl is
  have exists_iff : ∀ literal : Node, literal.kind = .funcLiteral → ∀ claims : List Node → Prop,
      (∃ outer, literal :: outer ∈ around :: asked ∧ claims outer) ↔ ∃ outer, literal :: outer ∈ asked ∧ claims outer :=
    fun literal is claims => exists_congr fun outer => and_congr_left fun _ => apart literal is outer
  obtain ⟨source, handle, http, available, kept, launched, handlers⟩ := noted.grows
  refine ⟨⟨source, handle, http, available, fun was => right.2 (.inl (kept was)), launched, handlers⟩, ?_, ?_, ?_, ?_, ?_, ?_,
    noted.launchedOnce, noted.handlersOnce⟩
  · intro literal outer is below
    rw [apart literal is outer]
    exact noted.judged literal outer is below
  · rw [right, noted.used, ← and_or_left, List.exists_mem_cons_iff, or_comm]
  · intro found
    rw [noted.launched found]
    exact and_congr_right fun is => (exists_iff found.literal is _).symm
  · intro found
    rw [noted.handlers found]
    exact and_congr_right fun is => (exists_iff found.literal is _).symm
  · intro note
    rw [noted.notes note]
    refine exists_congr fun literal => ?_
    constructor
    · rintro ⟨outer, is, member, rest⟩
      exact ⟨outer, is, (apart literal is outer).2 member, rest⟩
    · rintro ⟨outer, is, member, rest⟩
      exact ⟨outer, is, (apart literal is outer).1 member, rest⟩
  · intro literal outer is member
    exact noted.below literal outer is ((apart literal is outer).1 member)

theorem Noted.congr (noted : Noted top base asked scope) {asked' : List (List Node)}
    (same : ∀ around, around ∈ asked ↔ around ∈ asked') : Noted top base asked' scope := by
  simp only [noted_iff, same] at noted ⊢
  exact noted

/-- What a literal leads to when it is judged for the first time. -/
theorem trail_literal (apart : ¬ literal.kind.isFunction = true) (is : literal.kind = .funcLiteral) :
    base.trail (literal :: around) = (literal :: around) ::
      match base.judge literal around with
      | .launched _ _ | .inherited => base.trail around
      | .own | .handler _ | .unnamed => [] := by
  rw [trail, if_neg apart, if_pos (beq_iff_eq.2 is)]

/-- A literal is not on the way from around it. -/
theorem not_mem_trail_around (literal : Node) (around : List Node) : literal :: around ∉ base.trail around := by
  intro member
  have short := (trail_suffix member).length_le
  simp at short

theorem Grows.trail {before after : HandleScope} (grows : Grows before after) (around : List Node) :
    after.trail around = before.trail around := by
  induction around with
  | nil => rfl
  | cons node around ih => simp only [HandleScope.trail, grows.judge, ih]

/-- A literal that decides by itself. -/
theorem Noted.settle (answer : Bool) (annotated : Annotated sound top.node) (noted : Noted top base asked scope)
    (is : literal.kind = .funcLiteral) (apart : ¬ literal.kind.isFunction = true) (below : Below top ⟨literal, around⟩)
    (fresh : literal :: around ∉ asked) (right : answer = scope.knows (literal :: around))
    (ends : scope.trail (literal :: around) = [literal :: around]) :
    Noted top base (base.trail (literal :: around) ++ asked)
      ((scope.noteJudged literal around answer).remember literal answer) := by
  rw [← noted.grows.trail, ends]
  exact noted.judge annotated is apart below fresh (right.trans (noted.grows.knows _))

/-- A literal that takes the answer from around it. -/
theorem Noted.carry (annotated : Annotated sound top.node) (outer : Noted top base (base.trail around ++ asked) scope)
    (is : literal.kind = .funcLiteral) (apart : ¬ literal.kind.isFunction = true) (below : Below top ⟨literal, around⟩)
    (fresh : literal :: around ∉ asked) (right : answer = scope.knows (literal :: around))
    (leads : scope.trail (literal :: around) = (literal :: around) :: scope.trail around) :
    Noted top base (base.trail (literal :: around) ++ asked)
      ((scope.noteJudged literal around answer).remember literal answer) := by
  have unasked : literal :: around ∉ base.trail around ++ asked := by
    rw [List.mem_append, not_or]
    exact ⟨not_mem_trail_around literal around, fresh⟩
  rw [← outer.grows.trail, leads, outer.grows.trail]
  exact outer.judge annotated is apart below unasked (right.trans (outer.grows.knows _))

/-- One question notes all it leads to. -/
theorem consult_noted (annotated : Annotated sound top.node) (closed : Closed top)
    (complete : ∀ inner ∈ asked, base.trail inner ⊆ asked) (exact : Exact top scope) (noted : Noted top base asked scope)
    (inside : Around top around) : Noted top base (base.trail around ++ asked) (scope.consult around).2 := by
  have fresh : ∀ literal around, literal.kind = .funcLiteral → Below top ⟨literal, around⟩ →
      scope.known? literal = none → literal :: around ∉ asked := by
    intro literal around is below unknown old
    have known := (noted.judged literal around is below).2 old
    rw [unknown] at known
    cases known
  fun_induction consult scope around with
  | case1 =>
      have outermost : Outermost [] := by simp [Outermost]
      exact noted.pass (by simp) (by simp [outermost, noted.grows.available])
  | case2 node around is =>
      have outermost : Outermost (node :: around) := by simpa [Outermost] using is
      have ends : base.trail (node :: around) = [node :: around] := by rw [trail, if_pos is]
      rw [ends]
      refine noted.pass ?_ (by simp [outermost, noted.grows.available])
      intro other same literal
      cases same
      rw [literal] at is
      cases is
  | case3 node around apart is answer known =>
      have below := inside.below closed apart
      have old := (noted.judged node around (beq_iff_eq.1 is) below).1 (by rw [known]; rfl)
      refine noted.congr fun inner => ?_
      rw [List.mem_append, or_iff_right_of_imp (complete _ old ·)]
  | case4 node around apart is unknown kind =>
      have literal := beq_iff_eq.1 is
      have below := inside.below closed apart
      have next := noted.settle true annotated literal apart below (fresh _ _ literal below unknown)
        (by rw [knows_literal apart is, HandleScope.judge, kind]) (by rw [trail_literal apart literal, HandleScope.judge, kind])
      rwa [noteJudged, HandleScope.judge, kind] at next
  | case5 node around apart is unknown kind =>
      have literal := beq_iff_eq.1 is
      have below := inside.below closed apart
      have next := noted.settle false annotated literal apart below (fresh _ _ literal below unknown)
        (by rw [knows_literal apart is, HandleScope.judge, kind]) (by rw [trail_literal apart literal, HandleScope.judge, kind])
      rwa [noteJudged, HandleScope.judge, kind] at next
  | case6 node around apart is unknown request kind =>
      have literal := beq_iff_eq.1 is
      have below := inside.below closed apart
      have next := noted.settle true annotated literal apart below (fresh _ _ literal below unknown)
        (by rw [knows_literal apart is, HandleScope.judge, kind]) (by rw [trail_literal apart literal, HandleScope.judge, kind])
      rwa [noteJudged, HandleScope.judge, kind] at next
  | case7 node around apart is unknown launch index kind answer scope' consulted scope'' ih =>
      have literal := beq_iff_eq.1 is
      have below := inside.below closed apart
      have tail := inside.tail closed apart
      have outer := ih tail
      have exactly := consult_exactly annotated closed exact tail
      rw [consulted] at outer exactly
      have judged : scope'.judge node around = .launched launch index := (exactly.grows.judge node around).trans kind
      have next := outer.carry annotated literal apart below (fresh _ _ literal below unknown)
        (exactly.answer.trans ((exactly.grows.knows around).symm.trans (knows_launched apart literal judged).symm))
        (by rw [trail_literal apart literal, judged])
      rwa [noteJudged, judged] at next
  | case8 node around apart is unknown kind answer scope' consulted ih =>
      have literal := beq_iff_eq.1 is
      have below := inside.below closed apart
      have tail := inside.tail closed apart
      have outer := ih tail
      have exactly := consult_exactly annotated closed exact tail
      rw [consulted] at outer exactly
      have judged : scope'.judge node around = .inherited := (exactly.grows.judge node around).trans kind
      have right : answer = scope'.knows (node :: around) := by
        rw [knows_literal apart is, judged]
        exact exactly.answer.trans (exactly.grows.knows around).symm
      have next := outer.carry annotated literal apart below (fresh _ _ literal below unknown) right
        (by rw [trail_literal apart literal, judged])
      rwa [noteJudged, judged] at next
  | case9 node around apart is ih =>
      have outer := ih (inside.tail closed apart)
      have inner : ¬ Outermost (node :: around) := fun outermost => apart (outermost node rfl)
      rw [trail, if_neg apart, if_neg is]
      refine outer.pass ?_ (by simp [inner])
      intro other same literal
      cases same
      exact is (beq_iff_eq.2 literal)

/-! Many questions. -/

/-- What is known before the first question. -/
def fresh (source : Source) (handle : String) (http : Option String) (available : Bool) : HandleScope :=
  { source, handle, http, available }

variable {source : Source} {handle : String} {http : Option String} {available : Bool} {places places' : List Place}

theorem fresh_noted : Noted top (fresh source handle http available) [] (fresh source handle http available) := by
  refine ⟨.refl _, ?_, ?_, ?_, ?_, ?_, ?_, .nil, .nil⟩ <;> simp [fresh, known?]

theorem fresh_exact : Exact top (fresh source handle http available) := fun _ member => by cases member

/-- The places that some questions lead to. -/
def Leads (base : HandleScope) (places : List Place) (inner : List Node) : Prop :=
  ∃ place ∈ places, inner ∈ base.trail place.around

theorem availableAll_noted (annotated : Annotated sound top.node) (closed : Closed top)
    (complete : ∀ inner ∈ asked, base.trail inner ⊆ asked) (exact : Exact top scope) (noted : Noted top base asked scope)
    (within : ∀ place ∈ places, Below top place) :
    (scope.availableAll places).1 = places.map (base.knows ·.around) ∧
      ∃ asked', (∀ inner, inner ∈ asked' ↔ Leads base places inner ∨ inner ∈ asked) ∧
        Noted top base asked' (scope.availableAll places).2 := by
  induction places generalizing scope asked with
  | nil => exact ⟨rfl, asked, fun inner => by simp [Leads], noted⟩
  | cons place places ih =>
      obtain ⟨below, within⟩ := List.forall_mem_cons.1 within
      have inside := around_of_below below
      have exactly := consult_exactly annotated closed exact inside
      have next := consult_noted annotated closed complete exact noted inside
      have complete' : ∀ inner ∈ base.trail place.around ++ asked,
          base.trail inner ⊆ base.trail place.around ++ asked := by
        intro inner member
        rcases List.mem_append.1 member with new | old
        · exact fun _ further => List.mem_append_left _ (trail_subset new further)
        · exact fun _ further => List.mem_append_right _ (complete inner old further)
      obtain ⟨answers, asked', same, last⟩ := ih complete' exactly.exact next within
      refine ⟨?_, asked', fun inner => ?_, last⟩
      · exact congrArg₂ List.cons (exactly.answer.trans (noted.grows.knows _)) answers
      · rw [same, List.mem_append, Leads, Leads, List.exists_mem_cons_iff, or_left_comm, or_assoc]

/-- What begins at different places is sorted strictly. -/
theorem pairwise_sorted {α : Type} {items : List α} (start : α → Nat)
    (once : items.Pairwise fun a b => start a ≠ start b) :
    (items.mergeSort fun a b => decide (start a ≤ start b)).Pairwise fun a b => start a < start b := by
  have differ := (List.mergeSort_perm items fun a b => decide (start a ≤ start b)).symm.pairwise once fun ne => ne.symm
  exact ((pairwise_mergeSort_key start items).and differ).imp fun ⟨le, ne⟩ => Nat.lt_of_le_of_ne le ne

/-- What begins at different places is sorted in one way. -/
theorem sorted_unique {α : Type} {items items' : List α} (start : α → Nat)
    (once : items.Pairwise fun a b => start a ≠ start b) (once' : items'.Pairwise fun a b => start a ≠ start b)
    (same : ∀ item, item ∈ items ↔ item ∈ items') :
    (items.mergeSort fun a b => decide (start a ≤ start b)) = items'.mergeSort fun a b => decide (start a ≤ start b) := by
  have : Std.Irrefl fun a b : α => start a < start b := ⟨fun a => Nat.lt_irrefl _⟩
  have : Std.Antisymm fun a b : α => start a < start b := ⟨fun a b less more => absurd less (Nat.lt_asymm more)⟩
  refine (pairwise_sorted start once).eq_of_mem_iff (pairwise_sorted start once') fun item => ?_
  rw [List.mem_mergeSort, List.mem_mergeSort, same]

/-- The order of questions does not matter. Each answer is the one without notes, and what is noted in the end is what
is noted when the same questions are asked in another order, or more often. No literal is noted twice. -/
theorem availableAll_unordered (parsed : source.IsParsed) {decl : FunctionDecl} (listed : decl ∈ FunctionDecl.all source)
    (within : ∀ place ∈ places, Below decl.place place) (same : ∀ place, place ∈ places ↔ place ∈ places')
    (handle : String) (http : Option String) (available : Bool) :
    let scope := fresh source handle http available
    let last := (scope.availableAll places).2
    let last' := (scope.availableAll places').2
    (scope.availableAll places).1 = places.map (scope.knows ·.around) ∧
      (scope.availableAll places').1 = places'.map (scope.knows ·.around) ∧
      last.launchedInOrder = last'.launchedInOrder ∧ last.handlersInOrder = last'.handlersInOrder ∧
      last.used = last'.used ∧ (∀ note, note ∈ last.notes ↔ note ∈ last'.notes) ∧
      last.launchedInOrder.Pairwise (fun a b => a.literal.start < b.literal.start) ∧
      last.handlersInOrder.Pairwise fun a b => a.literal.start < b.literal.start := by
  intro scope last last'
  have annotated := parsed.annotated
  have closed : Closed source.rootPlace := fun _ outer => by cases outer
  have below : Below source.rootPlace decl.place := below_of_mem_parts (FunctionDecl.of_mem_all listed).1
  have within : ∀ place ∈ places, Below source.rootPlace place := fun place member => below.trans (within place member)
  have within' : ∀ place ∈ places', Below source.rootPlace place := fun place member => within place ((same place).2 member)
  have start : Noted source.rootPlace scope [] scope := fresh_noted
  obtain ⟨answers, asked, all, noted⟩ := availableAll_noted annotated closed (by simp) fresh_exact start within
  obtain ⟨answers', asked', all', noted'⟩ := availableAll_noted annotated closed (by simp) fresh_exact start within'
  have noted' : Noted source.rootPlace scope asked last' := noted'.congr fun inner => by
    rw [all, all', Leads, Leads]
    simp only [same]
  refine ⟨answers, answers', ?_, ?_, ?_, ?_, pairwise_sorted _ noted.launchedOnce, pairwise_sorted _ noted.handlersOnce⟩
  · exact sorted_unique _ noted.launchedOnce noted'.launchedOnce fun found =>
      (noted.launched found).trans (noted'.launched found).symm
  · exact sorted_unique _ noted.handlersOnce noted'.handlersOnce fun found =>
      (noted.handlers found).trans (noted'.handlers found).symm
  · exact Bool.eq_iff_iff.2 (noted.used.trans noted'.used.symm)
  · exact fun note => (noted.notes note).trans (noted'.notes note).symm

/-- A function that launches a goroutine. -/
def launchingCode : Source := .load "fetch.go" "package main\nfunc fetch() \x7b\ngo func() \x7b\nsend()\n\x7d()\n\x7d\n"

theorem availableAll_unordered_launchingCode :
    ∃ decl ∈ FunctionDecl.all launchingCode,
      let scope := fresh launchingCode "nrTxn" none true
      let places := decl.place.descendants
      let last := (scope.availableAll places).2
      let last' := (scope.availableAll places.reverse).2
      (scope.availableAll places).1 = places.map (scope.knows ·.around) ∧
        (scope.availableAll places.reverse).1 = places.reverse.map (scope.knows ·.around) ∧
        last.launchedInOrder = last'.launchedInOrder ∧ last.handlersInOrder = last'.handlersInOrder ∧
        last.used = last'.used ∧ (∀ note, note ∈ last.notes ↔ note ∈ last'.notes) ∧
        last.launchedInOrder.Pairwise (fun a b => a.literal.start < b.literal.start) ∧
        last.handlersInOrder.Pairwise fun a b => a.literal.start < b.literal.start := by
  have declares : (FunctionDecl.all launchingCode).isEmpty = false := by decide +kernel
  obtain ⟨decl, listed⟩ := List.exists_mem_of_ne_nil _ (by simpa using declares)
  exact ⟨decl, listed, availableAll_unordered (Source.isParsed_load _ _) listed (fun _ => Go.Place.mem_descendants.1)
    (fun _ => List.mem_reverse.symm) "nrTxn" none true⟩

end TraceWeave.HandleScope
