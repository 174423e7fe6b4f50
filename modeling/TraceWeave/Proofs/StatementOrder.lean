import TraceWeave.Proofs.Seats
import TraceWeave.Proofs.Stretch

/-!
Texts that are put in beside statements, all at once and at any depth. The batch is carried out, and in the result the
statements of a block, with what was put in before and behind each of them, stand in their order.
-/
namespace TraceWeave

open Go (Node Place Token)
open Go.Place (Below)
open Edit (front rear seat)

/-! Texts for the statements of a file. -/

/-- Lines for the start of a block. -/
structure Opening where
  block : Place
  lines : List String

/-- A text for one side of a statement of a block. -/
structure Addition where
  block : Place
  statement : Node
  behind : Bool
  text : String

/-- Texts that are put in at once, with those for the start of a block before the others. -/
structure Supplements where
  openings : List Opening
  additions : List Addition

def Opening.edit (source : String) (opening : Opening) : Edit := .addAtStart source opening.block.node opening.lines

def Addition.edit (source : String) (addition : Addition) : Edit :=
  if addition.behind then .addAfter source addition.statement addition.text
  else .addBefore source addition.statement addition.text

namespace Supplements

def edits (source : String) (these : Supplements) : List Edit :=
  these.openings.map (·.edit source) ++ these.additions.map (·.edit source)

/-- Those for the blocks inside a statement. -/
def inside (these : Supplements) (statement : Node) : Supplements where
  openings := these.openings.filter fun opening =>
    decide (statement.start ≤ opening.block.start) && decide (opening.block.stop ≤ statement.stop)
  additions := these.additions.filter fun addition =>
    decide (statement.start ≤ addition.block.start) && decide (addition.block.stop ≤ statement.stop)

/-- The lines for the block whose first statement this is. -/
def opened (source : String) (these : Supplements) (statement : Node) : String :=
  String.join ((these.openings.filter fun opening =>
    opening.block.node.statements.head?.any (·.isSame statement)).map fun opening => (opening.edit source).text)

/-- The texts for one side of a statement, in the order of the batch. -/
def beside (source : String) (these : Supplements) (behind : Bool) (statement : Node) : String :=
  String.join ((these.additions.filter fun addition =>
    addition.behind == behind && addition.statement.isSame statement).map fun addition => (addition.edit source).text)

/-- A statement, with what goes into the blocks inside it. -/
def image (source : String) (these : Supplements) (statement : Node) : String :=
  Edit.rendered source statement.stop statement.start (Edit.inOrder ((these.inside statement).edits source))

/-- Statements in their order, each with the texts for it, from one offset to another. -/
def arranged (source : String) (these : Supplements) (stop : Nat) : Nat → List Node → String
  | done, [] => Text.slice source done stop
  | done, statement :: statements =>
      Text.slice source done (front source statement) ++
        (these.opened source statement ++ these.beside source false statement ++
          Text.slice source (front source statement) statement.start ++ these.image source statement ++
          Text.slice source statement.stop (rear source statement) ++ these.beside source true statement) ++
        arranged source these stop (rear source statement) statements

/-- Texts for blocks of a file and their statements, each block opened once. -/
structure In (source : Source) (these : Supplements) : Prop where
  opens : ∀ opening ∈ these.openings, Below source.rootPlace opening.block ∧ opening.block.node.kind = .block
  once : (these.openings.map (·.block)).Nodup
  adds : ∀ addition ∈ these.additions, Below source.rootPlace addition.block ∧ addition.block.node.kind = .block ∧
    addition.statement ∈ addition.block.node.statements

end Supplements

namespace Source

variable {source : Source} {opening : Opening} {addition : Addition}

theorem addition_edit (source : String) (addition : Addition) :
    ∃ before after, Text.isAllBlank before = true ∧ Text.isAllBlank after = true ∧ addition.edit source =
      .insertAt (seat source addition.behind addition.statement) (before ++ addition.text ++ after) := by
  unfold Addition.edit
  cases side : addition.behind with
  | false => exact Edit.addBefore_eq source addition.statement addition.text
  | true =>
      obtain ⟨before, blank, same⟩ := Edit.addAfter_eq source addition.statement addition.text
      exact ⟨before, "", blank, by decide, by rw [String.append_empty]; exact same⟩

theorem held_addition (parsed : source.IsParsed) (below : Below source.rootPlace addition.block)
    (is : addition.block.node.kind = .block) (listed : addition.statement ∈ addition.block.node.statements) :
    Held source addition.block (addition.edit source.text) := by
  obtain ⟨before, after, _, _, same⟩ := addition_edit source.text addition
  have frame := framed parsed below is listed
  have bounds := frame.seat_bounds addition.behind
  have whole : Token.Whole source.text (seat source.text addition.behind addition.statement) := by
    cases addition.behind with
    | false => exact frame.whole_front
    | true => exact frame.whole_rear
  rw [same]
  exact {
    opened := Nat.lt_of_lt_of_le frame.behind bounds.1
    order := Nat.le_refl _
    closed := Nat.lt_of_le_of_lt bounds.2 frame.ahead
    starts := whole
    stops := whole
    below
    is
    seated := .inr ⟨rfl, addition.statement, listed, addition.behind, rfl⟩ }

theorem held_opening (parsed : source.IsParsed) (below : Below source.rootPlace opening.block)
    (is : opening.block.node.kind = .block) : Held source opening.block (opening.edit source.text) := by
  unfold Opening.edit Edit.addAtStart
  split
  · rename_i first head
    have listed := List.mem_of_head? head
    have frame := framed parsed below is listed
    obtain ⟨start, stop⟩ := Edit.start_addBeforeFirst source.text first opening.lines
    generalize Edit.addBeforeFirst source.text first opening.lines = edit at start stop
    exact {
      opened := by rw [start]; exact frame.behind
      order := by rw [start, stop]
      closed := by
        rw [stop]
        exact Nat.lt_of_le_of_lt (frame.front_le.trans (frame.wide.le.trans frame.le_rear)) frame.ahead
      starts := by rw [start]; exact frame.whole_front
      stops := by rw [stop]; exact frame.whole_front
      below
      is
      seated := .inr ⟨stop.trans start.symm, first, listed, false, start⟩ }
  · rename_i nothing
    have brackets := (below.annotated parsed.whole).shaped.opens (by rw [is]; rfl)
    have room := brackets.room
    have none : opening.block.node.statements = [] := List.head?_eq_none_iff.1 nothing
    unfold Edit.addToEmpty
    dsimp only
    rw [Nat.max_eq_left room]
    split
    · exact ⟨⟨Nat.lt_succ_self _, room, by dsimp only; omega, brackets.opening, brackets.closing⟩, below, is, .inl none⟩
    · exact ⟨⟨Nat.lt_succ_self _, Nat.le_refl _, by dsimp only [Edit.insertAt]; omega, brackets.opening, brackets.opening⟩,
        below, is, .inl none⟩

end Source

namespace Supplements

variable {source : Source} {these : Supplements} {block : Place} {statement : Node} {edit : Edit} {text : String}
  {statements : List Node} {done : Nat}

theorem In.held (within : these.In source) (parsed : source.IsParsed) :
    ∀ edit ∈ these.edits source.text, ∃ home, Held source home edit := by
  intro edit member
  rcases List.mem_append.1 member with member | member
  · obtain ⟨opening, listed, rfl⟩ := List.mem_map.1 member
    obtain ⟨below, is⟩ := within.opens opening listed
    exact ⟨_, Source.held_opening parsed below is⟩
  · obtain ⟨addition, listed, rfl⟩ := List.mem_map.1 member
    obtain ⟨below, is, beside⟩ := within.adds addition listed
    exact ⟨_, Source.held_addition parsed below is beside⟩

/-! The batch is carried out. -/

theorem laid_openings (parsed : source.IsParsed) {openings : List Opening}
    (opens : ∀ opening ∈ openings, Below source.rootPlace opening.block ∧ opening.block.node.kind = .block) :
    ∃ leaves, Source.Laid source .block (openings.map (·.edit source.text)) leaves ∧
      leaves.Sublist (openings.map (·.block)) := by
  induction openings with
  | nil => exact ⟨[], .nil, .slnil⟩
  | cons opening openings ih =>
      obtain ⟨⟨below, is⟩, opens⟩ := List.forall_mem_cons.1 opens
      obtain ⟨leaves, laid, among⟩ := Source.laid_addAtStart parsed below is opening.lines
      obtain ⟨leaves', laid', among'⟩ := ih opens
      exact ⟨leaves ++ leaves', laid.append laid', among.append among'⟩

theorem In.performed (within : these.In source) (parsed : source.IsParsed) :
    ∃ text, Edit.perform source.text (these.edits source.text) = .ok text := by
  obtain ⟨leaves, laid, among⟩ := laid_openings parsed within.opens
  have beside : ∀ edit ∈ these.additions.map (·.edit source.text), source.Beside .block edit := by
    intro edit member
    obtain ⟨addition, listed, rfl⟩ := List.mem_map.1 member
    obtain ⟨below, _, beside⟩ := within.adds addition listed
    obtain ⟨child, named, solid⟩ := Edit.mem_parts beside
    have inside : Below source.rootPlace (addition.block.inside addition.statement) :=
      below.inside (List.mem_filter.2 ⟨child, named⟩)
    unfold Addition.edit
    split
    · exact Source.beside_addAfter parsed (.inr rfl) inside solid addition.text
    · exact Source.beside_addBefore parsed inside solid addition.text
  have whole := laid.append (Source.Laid.of_beside beside)
  rw [List.append_nil] at whole
  refine Edit.perform_of_apart (fun edit member => ?_) (whole.apart parsed (by simp) (within.once.sublist among))
  obtain ⟨home, held⟩ := within.held parsed edit member
  exact ⟨held.order, held.starts.boundary, held.stops.boundary⟩

/-! Stretches of the result. -/

/-- No edit reaches across an offset outside of blocks that have no statements. -/
theorem In.parts (within : these.In source) (parsed : source.IsParsed) {offset : Nat}
    (sound : Text.isBoundary source.text offset = true) (spares : source.Spares .block offset) :
    (Edit.Edge.before offset).Parts source.text (these.edits source.text) ∧
      (Edit.Edge.past offset).Parts source.text (these.edits source.text) := by
  have short : ∀ edit ∈ these.edits source.text, edit.start ≤ offset → edit.stop ≤ offset := by
    intro edit member begun
    obtain ⟨home, held⟩ := within.held parsed edit member
    exact held.stop_le spares begun
  refine ⟨⟨sound, fun edit member begun => short edit member (Nat.le_of_lt begun), fun _ _ later => later⟩,
    ⟨sound, fun edit member begun => short edit member (Nat.le_of_lt_succ begun), fun _ _ later => Nat.le_of_succ_le later⟩⟩

theorem start_opening {source : String} {opening : Opening} {first : Node}
    (head : opening.block.node.statements.head? = some first) : (opening.edit source).start = front source first := by
  unfold Opening.edit Edit.addAtStart
  rw [head]
  exact (Edit.start_addBeforeFirst source first opening.lines).1

theorem exists_head {block : Node} (listed : statement ∈ block.statements) :
    ∃ first, block.statements.head? = some first ∧ first ∈ block.statements := by
  cases head : block.statements.head? with
  | none =>
      rw [List.head?_eq_none_iff.1 head] at listed
      cases listed
  | some first => exact ⟨first, rfl, List.mem_of_head? head⟩

section Statement

variable (within : these.In source) (parsed : source.IsParsed) (below : Below source.rootPlace block)
  (is : block.node.kind = .block) (listed : statement ∈ block.node.statements)
include within parsed below is listed

/-- The additions at a place beside a statement are those for that side of it. -/
theorem addition_seat_iff (behind : Bool) : ∀ addition ∈ these.additions,
    ((addition.edit source.text).start == seat source.text behind statement) =
      (addition.behind == behind && addition.statement.isSame statement) := by
  intro addition member
  obtain ⟨below', is', listed'⟩ := within.adds addition member
  obtain ⟨_, _, _, _, same⟩ := Source.addition_edit source.text addition
  have start : (addition.edit source.text).start = seat source.text addition.behind addition.statement := by rw [same]; rfl
  rw [Bool.eq_iff_iff, Bool.and_eq_true, beq_iff_eq, beq_iff_eq]
  constructor
  · intro here
    have home := ((Source.held_addition parsed below' is' listed').at_seat parsed below is listed behind here).1
    rw [home] at listed'
    have frame := Source.framed parsed below is listed
    have bounds := frame.seat_bounds behind
    rw [← here, start] at bounds
    rcases Source.seat_cases parsed below is listed listed' addition.behind with same | before | after
    · rw [start, same] at here
      refine ⟨?_, same ▸ Node.isSame_refl _⟩
      have apart : front source.text statement < rear source.text statement :=
        Nat.lt_of_le_of_lt frame.front_le (Nat.lt_of_lt_of_le frame.wide frame.le_rear)
      revert here
      cases addition.behind <;> cases behind
      · simp
      · exact fun here => absurd here (Nat.ne_of_lt apart)
      · exact fun here => absurd here (Nat.ne_of_gt apart)
      · simp
    · omega
    · omega
  · rintro ⟨rfl, same⟩
    rw [start]
    exact Edit.seat_congr _ same

/-- The lines at the place before a statement are those for the block that begins with it. -/
theorem opening_front_iff : ∀ opening ∈ these.openings,
    ((opening.edit source.text).start == front source.text statement) =
      opening.block.node.statements.head?.any (·.isSame statement) := by
  intro opening member
  obtain ⟨below', is'⟩ := within.opens opening member
  rw [Bool.eq_iff_iff, beq_iff_eq, Option.any_eq_true]
  constructor
  · intro here
    obtain ⟨rfl, _⟩ := (Source.held_opening parsed below' is').at_seat parsed below is listed false here
    obtain ⟨first, head, listed'⟩ := exists_head listed
    rw [start_opening head] at here
    have frame := Source.framed parsed below is listed
    rcases Source.seat_cases parsed below is listed listed' false with rfl | before | after
    · exact ⟨first, head, Node.isSame_refl first⟩
    · exact absurd here (Nat.ne_of_lt before)
    · have bounds := frame.seat_bounds false
      exact absurd here (Nat.ne_of_gt (Nat.lt_of_le_of_lt bounds.2 after))
  · rintro ⟨first, head, same⟩
    rw [start_opening head]
    exact Edit.seat_congr false same

/-- Lines for the start of a block do not go behind a statement. -/
theorem opening_not_rear : ∀ opening ∈ these.openings, (opening.edit source.text).start ≠ rear source.text statement := by
  intro opening member here
  obtain ⟨below', is'⟩ := within.opens opening member
  obtain ⟨rfl, _⟩ := (Source.held_opening parsed below' is').at_seat parsed below is listed true here
  obtain ⟨first, head, listed'⟩ := exists_head listed
  rw [start_opening head] at here
  have frame := Source.framed parsed below is listed
  have wide : front source.text statement < rear source.text statement :=
    Nat.lt_of_le_of_lt frame.front_le (Nat.lt_of_lt_of_le frame.wide frame.le_rear)
  rcases Source.seat_cases parsed below is listed listed' false with rfl | before | after
  · exact absurd here (Nat.ne_of_lt wide)
  · exact absurd here (Nat.ne_of_lt (Nat.lt_trans before wide))
  · exact absurd here (Nat.ne_of_gt after)

/-! The pieces of a statement. -/

theorem stretch_front : Edit.stretch source.text (these.edits source.text) (.before (front source.text statement))
    (.past (front source.text statement)) =
      these.opened source.text statement ++ these.beside source.text false statement := by
  have opens := List.filter_congr (opening_front_iff within parsed below is listed)
  have adds := List.filter_congr (addition_seat_iff within parsed below is listed false)
  rw [Edit.stretch_point]
  · rw [opened, beside, ← opens, ← adds, edits, List.filter_append, List.map_append, String.join_append, List.filter_map,
      List.filter_map, List.map_map, List.map_map]
    rfl
  · intro edit member start
    obtain ⟨home, held⟩ := within.held parsed edit member
    exact (held.at_seat parsed below is listed false start).2.trans start

theorem stretch_rear : Edit.stretch source.text (these.edits source.text) (.before (rear source.text statement))
    (.past (rear source.text statement)) = these.beside source.text true statement := by
  have opens : (these.openings.map (·.edit source.text)).filter (·.start == rear source.text statement) = [] := by
    rw [List.filter_map, List.map_eq_nil_iff, List.filter_eq_nil_iff]
    intro opening member
    simpa using opening_not_rear within parsed below is listed opening member
  have adds := List.filter_congr (addition_seat_iff within parsed below is listed true)
  rw [Edit.stretch_point]
  · rw [beside, ← adds, edits, List.filter_append, opens, List.nil_append, List.filter_map, List.map_map]
    rfl
  · intro edit member start
    obtain ⟨home, held⟩ := within.held parsed edit member
    exact (held.at_seat parsed below is listed true start).2.trans start

/-- What goes inside a statement is what goes into the blocks inside it. -/
theorem stretch_inside : Edit.stretch source.text (these.edits source.text) (.past statement.start)
    (.before statement.stop) = these.image source.text statement := by
  have known : ∀ {home edit}, Held source home edit →
      (decide (statement.start + 1 ≤ edit.start) && decide (edit.start < statement.stop)) =
        (decide (statement.start ≤ home.start) && decide (home.stop ≤ statement.stop)) := by
    intro home edit held
    rw [Bool.eq_iff_iff, Bool.and_eq_true, Bool.and_eq_true, decide_eq_true_eq, decide_eq_true_eq, decide_eq_true_eq,
      decide_eq_true_eq]
    exact held.inside_iff parsed below is listed
  have opens : these.openings.filter (fun opening => decide (statement.start + 1 ≤ (opening.edit source.text).start) &&
      decide ((opening.edit source.text).start < statement.stop)) = (these.inside statement).openings := by
    refine List.filter_congr fun opening member => ?_
    obtain ⟨below', is'⟩ := within.opens opening member
    exact known (Source.held_opening parsed below' is')
  have adds : these.additions.filter (fun addition => decide (statement.start + 1 ≤ (addition.edit source.text).start) &&
      decide ((addition.edit source.text).start < statement.stop)) = (these.inside statement).additions := by
    refine List.filter_congr fun addition member => ?_
    obtain ⟨below', is', listed'⟩ := within.adds addition member
    exact known (Source.held_addition parsed below' is' listed')
  rw [Edit.stretch, Edit.within, ← Edit.inOrder_filter, image, edits, edits, ← opens, ← adds, List.filter_append,
    List.filter_map, List.filter_map]
  rfl

/-- No edit reaches across the ends of a statement, or across a place beside it. -/
theorem statement_parts (offset : Nat) (known : offset = statement.start ∨ offset = statement.stop ∨
      ∃ behind, offset = seat source.text behind statement) :
    (Edit.Edge.before offset).Parts source.text (these.edits source.text) ∧
      (Edit.Edge.past offset).Parts source.text (these.edits source.text) := by
  obtain ⟨child, named, solid⟩ := Edit.mem_parts listed
  have inner : Below source.rootPlace (block.inside statement) := below.inside (List.mem_filter.2 ⟨child, named⟩)
  have shaped := (inner.annotated parsed.annotated).shaped
  have frame := Source.framed parsed below is listed
  rcases known with rfl | rfl | ⟨_ | _, rfl⟩
  · exact within.parts parsed shaped.starts.boundary (Source.spares_start parsed inner solid)
  · exact within.parts parsed shaped.stops.boundary (Source.spares_stop parsed inner solid)
  · exact within.parts parsed frame.whole_front.boundary (Source.spares_front parsed below listed)
  · exact within.parts parsed frame.whole_rear.boundary (Source.spares_rear parsed below listed)

/-- What becomes of a statement and of the places beside it. -/
theorem stretch_statement (performed : Edit.perform source.text (these.edits source.text) = .ok text) :
    Edit.stretch source.text (these.edits source.text) (.before (front source.text statement))
        (.past (rear source.text statement)) =
      these.opened source.text statement ++ these.beside source.text false statement ++
        Text.slice source.text (front source.text statement) statement.start ++ these.image source.text statement ++
        Text.slice source.text statement.stop (rear source.text statement) ++ these.beside source.text true statement := by
  have frame := Source.framed parsed below is listed
  have front_le := frame.front_le
  have wide := frame.wide
  have le_rear := frame.le_rear
  have parts := statement_parts within parsed below is listed
  have atFront := parts (front source.text statement) (.inr (.inr ⟨false, rfl⟩))
  have atStart := parts _ (.inl rfl)
  have atStop := parts _ (.inr (.inl rfl))
  have atRear := parts (rear source.text statement) (.inr (.inr ⟨true, rfl⟩))
  have gaps : ∀ edit ∈ these.edits source.text,
      ¬ (front source.text statement < edit.start ∧ edit.start ≤ statement.start) ∧
        ¬ (statement.stop ≤ edit.start ∧ edit.start < rear source.text statement) := by
    intro edit member
    obtain ⟨home, held⟩ := within.held parsed edit member
    exact held.not_between parsed below is listed
  have lead : Edit.stretch source.text (these.edits source.text) (.past (front source.text statement))
      (.past statement.start) = Text.slice source.text (front source.text statement) statement.start :=
    Edit.stretch_bare fun edit member inner => (gaps edit member).1 ⟨inner.1, Nat.le_of_lt_succ inner.2⟩
  have tail : Edit.stretch source.text (these.edits source.text) (.before statement.stop)
      (.before (rear source.text statement)) = Text.slice source.text statement.stop (rear source.text statement) :=
    Edit.stretch_bare fun edit member inner => (gaps edit member).2 inner
  rw [Edit.stretch_append performed atFront.1 atFront.2 atRear.2 ⟨?_, ?_⟩ ⟨?_, ?_⟩,
    Edit.stretch_append performed atFront.2 atStart.2 atRear.2 ⟨?_, ?_⟩ ⟨?_, ?_⟩,
    Edit.stretch_append performed atStart.2 atStop.1 atRear.2 ⟨?_, ?_⟩ ⟨?_, ?_⟩,
    Edit.stretch_append performed atStop.1 atRear.1 atRear.2 ⟨?_, ?_⟩ ⟨?_, ?_⟩,
    stretch_front within parsed below is listed, lead, stretch_inside within parsed below is listed, tail,
    stretch_rear within parsed below is listed]
  · simp only [String.append_assoc]
  all_goals
    simp only [Edit.Edge.before, Edit.Edge.past]
    omega

end Statement

/-- What becomes of statements that follow each other. -/
theorem stretch_statements (within : these.In source) (parsed : source.IsParsed) (below : Below source.rootPlace block)
    (is : block.node.kind = .block) (busy : block.node.statements ≠ [])
    (performed : Edit.perform source.text (these.edits source.text) = .ok text)
    (listed : ∀ statement ∈ statements, statement ∈ block.node.statements)
    (order : statements.Pairwise fun a b => rear source.text a < front source.text b)
    (reached : ∀ statement ∈ statements, done < front source.text statement)
    (others : ∀ statement ∈ block.node.statements, statement ∈ statements ∨ rear source.text statement ≤ done)
    (behind : block.start ≤ done) (ahead : done < block.stop)
    (starts : (Edit.Edge.past done).Parts source.text (these.edits source.text)) :
    Edit.stretch source.text (these.edits source.text) (.past done) (.before block.stop) =
      these.arranged source.text block.stop done statements := by
  have solid : block.kind ≠ .comment := by simp [Place.kind, is]
  have shaped := (below.annotated parsed.annotated).shaped
  have stops : (Edit.Edge.before block.stop).Parts source.text (these.edits source.text) :=
    (within.parts parsed shaped.stops.boundary (Source.spares_stop parsed below solid)).1
  induction statements generalizing done with
  | nil =>
      refine Edit.stretch_bare fun edit member inner => ?_
      obtain ⟨home, held⟩ := within.held parsed edit member
      refine held.not_in_gap parsed below is busy done block.stop (fun statement member' => ?_) behind (Nat.le_refl _) inner
      exact (others statement member').elim (fun contrary => by cases contrary) .inl
  | cons statement statements ih =>
      obtain ⟨here, listed⟩ := List.forall_mem_cons.1 listed
      obtain ⟨follow, order⟩ := List.pairwise_cons.1 order
      have first := reached statement List.mem_cons_self
      have frame := Source.framed parsed below is here
      have wide : front source.text statement < rear source.text statement :=
        Nat.lt_of_le_of_lt frame.front_le (Nat.lt_of_lt_of_le frame.wide frame.le_rear)
      have inside : rear source.text statement < block.stop := frame.ahead
      have parts := statement_parts within parsed below is here
      have atFront := (parts (front source.text statement) (.inr (.inr ⟨false, rfl⟩))).1
      have atRear := (parts (rear source.text statement) (.inr (.inr ⟨true, rfl⟩))).2
      have gap : Edit.stretch source.text (these.edits source.text) (.past done) (.before (front source.text statement)) =
          Text.slice source.text done (front source.text statement) := by
        refine Edit.stretch_bare fun edit member inner => ?_
        obtain ⟨home, held⟩ := within.held parsed edit member
        refine held.not_in_gap parsed below is busy done (front source.text statement) (fun other member' => ?_) behind
          (by omega) inner
        rcases others other member' with later | earlier
        · rcases List.mem_cons.1 later with rfl | later
          · exact .inr (Nat.le_refl _)
          · exact .inr (Nat.le_of_lt (Nat.lt_trans wide (follow other later)))
        · exact .inl earlier
      have rest := ih listed order follow (fun other member => by
          rcases others other member with later | earlier
          · rcases List.mem_cons.1 later with rfl | later
            · exact .inr (Nat.le_refl _)
            · exact .inl later
          · exact .inr (by omega)) (by omega) inside atRear
      rw [arranged, ← rest, ← stretch_statement within parsed below is here performed, ← gap,
        ← Edit.stretch_append performed starts atFront atRear ⟨?_, ?_⟩ ⟨?_, ?_⟩,
        ← Edit.stretch_append performed starts atRear stops ⟨?_, ?_⟩ ⟨?_, ?_⟩]
      all_goals
        simp only [Edit.Edge.before, Edit.Edge.past]
        omega

end Supplements

/-! Statements keep their order. -/

/-- A text for one side of a statement, between white space, is put in where its block is. -/
structure Addition.Placed (source : String) (addition : Addition) : Prop extends
    Between source addition.block.node (addition.edit source) where
  point : (addition.edit source).stop = (addition.edit source).start
  shown : ∃ before after, Text.isAllBlank before = true ∧ Text.isAllBlank after = true ∧
    (addition.edit source).text = before ++ addition.text ++ after

/-- Lines for the start of a block are put in where the block is. -/
structure Opening.Placed (source : String) (opening : Opening) : Prop extends
    Between source opening.block.node (opening.edit source) where
  shown : opening.block.node.statements ≠ [] →
    (opening.edit source).stop = (opening.edit source).start ∧ Indented opening.lines (opening.edit source).text

theorem Addition.placed {source : Source} {addition : Addition} (parsed : source.IsParsed)
    (below : Below source.rootPlace addition.block) (is : addition.block.node.kind = .block)
    (listed : addition.statement ∈ addition.block.node.statements) : addition.Placed source.text := by
  obtain ⟨before, after, blank, blank', same⟩ := Source.addition_edit source.text addition
  refine ⟨(Source.held_addition parsed below is listed).toBetween, ?_, before, after, blank, blank', ?_⟩
  · rw [same]
    rfl
  · rw [same]
    rfl

theorem Opening.placed {source : Source} {opening : Opening} (parsed : source.IsParsed)
    (below : Below source.rootPlace opening.block) (is : opening.block.node.kind = .block) :
    opening.Placed source.text := by
  refine ⟨(Source.held_opening parsed below is).toBetween, fun busy => ?_⟩
  unfold Opening.edit Edit.addAtStart
  split
  · rename_i first head
    have blank := Text.isAllBlank_indentation source.text first.start
    unfold Edit.addBeforeFirst
    dsimp only
    split
    · exact ⟨rfl, _, blank, .inl rfl⟩
    · exact ⟨rfl, _, blank, .inr rfl⟩
  · rename_i nothing
    exact absurd (List.head?_eq_none_iff.1 nothing) busy

/-- Texts for statements are put in at once, in their blocks and outside of tokens, and every block then has its lines
for the start, and each of its statements between the texts for that, in the order of the statements. -/
theorem perform_supplements (source : Source) (parsed : source.IsParsed) (these : Supplements)
    (within : these.In source) :
    ∃ text, Edit.perform source.text (these.edits source.text) = .ok text ∧
      (∀ opening ∈ these.openings, opening.Placed source.text) ∧
      (∀ addition ∈ these.additions, addition.Placed source.text) ∧
      ∀ block, Below source.rootPlace block → block.node.kind = .block → block.node.statements ≠ [] →
        ∃ early late, text = early ++
          these.arranged source.text block.stop block.start block.node.statements ++ late := by
  obtain ⟨text, performed⟩ := within.performed parsed
  refine ⟨text, performed, fun opening member => ?_, fun addition member => ?_, fun block below is busy => ?_⟩
  · obtain ⟨below, is⟩ := within.opens opening member
    exact Opening.placed parsed below is
  · obtain ⟨below, is, listed⟩ := within.adds addition member
    exact Addition.placed parsed below is listed
  · have solid : block.kind ≠ .comment := by simp [Place.kind, is]
    have shaped := (below.annotated parsed.annotated).shaped
    have starts : (Edit.Edge.past block.start).Parts source.text (these.edits source.text) :=
      (within.parts parsed shaped.starts.boundary (Source.spares_start parsed below solid)).2
    have stops : (Edit.Edge.before block.stop).Parts source.text (these.edits source.text) :=
      (within.parts parsed shaped.stops.boundary (Source.spares_stop parsed below solid)).1
    have wide : block.start < block.stop := (below.annotated parsed.annotated).opens_wide (by rw [is]; rfl)
    have whole : Edit.stretch source.text (these.edits source.text) (.past block.start) (.before block.stop) =
        these.arranged source.text block.stop block.start block.node.statements :=
      Supplements.stretch_statements within parsed below is busy performed (fun _ listed => listed)
        (Source.statements_pairwise parsed below is)
        (fun statement listed => (Source.framed parsed below is listed).behind) (fun _ listed => .inl listed)
        (Nat.le_refl _) wide starts
    rw [← whole]
    exact Edit.exists_around performed starts stops ⟨wide.le, wide⟩ (Nat.le_succ _)

/-- A block inside a statement of another one, all on one line. -/
def blocksOnLine : Source := .load "f.go" "package p\n\nfunc f() \x7b a(); func() \x7b b() \x7d() \x7d\n"

/-- Lines for the outer block, and a text for each of its statements and for that of the inner block. -/
def Supplements.aroundEach (outer inner : Place) (first second nested : Node) : Supplements where
  openings := [⟨outer, ["w()"]⟩]
  additions := [⟨outer, second, false, "y()"⟩, ⟨inner, nested, true, "z()"⟩, ⟨outer, first, true, "x()"⟩]

theorem perform_supplements_blocksOnLine :
    ∃ outer inner first second nested, outer.node.statements = [first, second] ∧ inner.node.statements = [nested] ∧
      let these := Supplements.aroundEach outer inner first second nested
      blocksOnLine.IsParsed ∧ these.In blocksOnLine ∧
        ∃ text, Edit.perform blocksOnLine.text (these.edits blocksOnLine.text) = .ok text ∧
          (∀ opening ∈ these.openings, opening.Placed blocksOnLine.text) ∧
          (∀ addition ∈ these.additions, addition.Placed blocksOnLine.text) ∧
          ∀ block, Below blocksOnLine.rootPlace block → block.node.kind = .block → block.node.statements ≠ [] →
            ∃ early late, text = early ++
              these.arranged blocksOnLine.text block.stop block.start block.node.statements ++ late := by
  have found : (blocksOnLine.rootPlace.descendants.any fun outer =>
      outer.node.kind == .block && outer.node.statements.length == 2) = true ∧
      (blocksOnLine.rootPlace.descendants.any fun inner =>
        inner.node.kind == .block && inner.node.statements.length == 1) = true := by decide +kernel
  simp only [List.any_eq_true, Bool.and_eq_true, beq_iff_eq] at found
  obtain ⟨⟨outer, met, is, two⟩, inner, met', is', one⟩ := found
  obtain ⟨first, second, statements⟩ := List.length_eq_two.1 two
  obtain ⟨nested, statements'⟩ := List.length_eq_one_iff.1 one
  have below := Place.mem_descendants.1 met
  have below' := Place.mem_descendants.1 met'
  have parsed : blocksOnLine.IsParsed := Source.isParsed_load _ _
  have within : (Supplements.aroundEach outer inner first second nested).In blocksOnLine := by
    refine ⟨List.forall_mem_singleton.2 ⟨below, is⟩, List.nodup_singleton _, ?_⟩
    simp [Supplements.aroundEach, below, below', is, is', statements, statements']
  exact ⟨outer, inner, first, second, nested, statements, statements', parsed, within,
    perform_supplements blocksOnLine parsed _ within⟩

end TraceWeave
