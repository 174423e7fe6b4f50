import TraceWeave.Proofs.Agent
import TraceWeave.Proofs.Go.Lines

/-!
Where texts for the statements of a block go. The offset is chosen from the line of one statement alone. Still it keeps
to the block of that statement, apart from its neighbours, and it lies inside no statement and no token.
-/
namespace TraceWeave

open Go (Node Place Token OnLines Worded)
open Go.Node (Annotated)
open Go.Place (Below Inside)

variable {source : Source} {block place : Place} {statement other : Node} {edit : Edit} {offset : Nat}

/-! Where a statement begins and ends, with its line. -/

theorem Text.isAllBlank_append {a b : String} (blank : isAllBlank a = true) (blank' : isAllBlank b = true) :
    isAllBlank (a ++ b) = true := by
  rw [isAllBlank, String.toList_append, List.all_append, Bool.and_eq_true]
  exact ⟨blank, blank'⟩

/-- Where a text before a statement goes. -/
@[irreducible] def Edit.front (source : String) (statement : Node) : Nat :=
  if Text.startsLine source statement.start then Text.lineStart source statement.start else statement.start

/-- Where a text behind a statement goes. -/
@[irreducible] def Edit.rear (source : String) (statement : Node) : Nat :=
  if Text.restIsTrivia source statement.stop then Text.lineEnd source statement.stop else statement.stop

/-- Where a text on one side of a statement goes. -/
def Edit.seat (source : String) (behind : Bool) (statement : Node) : Nat :=
  if behind then rear source statement else front source statement

open Edit (front rear seat)

theorem Edit.addBefore_eq (source : String) (statement : Node) (text : String) :
    ∃ before after, Text.isAllBlank before = true ∧ Text.isAllBlank after = true ∧
      addBefore source statement text = insertAt (front source statement) (before ++ text ++ after) := by
  have blank := Text.isAllBlank_indentation source statement.start
  unfold addBefore front
  dsimp only
  split
  · exact ⟨_, "\n", blank, by decide, rfl⟩
  · refine ⟨"", "\n" ++ Text.indentation source statement.start, by decide, Text.isAllBlank_append (by decide) blank, ?_⟩
    rw [String.empty_append, String.append_assoc]

theorem Edit.addAfter_eq (source : String) (statement : Node) (text : String) :
    ∃ before, Text.isAllBlank before = true ∧
      addAfter source statement text = insertAt (rear source statement) (before ++ text) := by
  have blank := Text.isAllBlank_indentation source statement.start
  refine ⟨"\n" ++ Text.indentation source statement.start, Text.isAllBlank_append (by decide) blank, ?_⟩
  unfold addAfter rear
  rfl

theorem Edit.start_addBeforeFirst (source : String) (first : Node) (lines : List String) :
    (addBeforeFirst source first lines).start = front source first ∧
      (addBeforeFirst source first lines).stop = front source first := by
  unfold addBeforeFirst front
  dsimp only
  split <;> exact ⟨rfl, rfl⟩

theorem Edit.seat_congr {source : String} (behind : Bool) (same : statement.isSame other = true) :
    seat source behind statement = seat source behind other := by
  simp only [Node.isSame, Bool.and_eq_true, beq_iff_eq] at same
  cases behind with
  | false =>
      change front source statement = front source other
      unfold front
      rw [same.1.2]
  | true =>
      change rear source statement = rear source other
      unfold rear
      rw [same.2]

/-- A part of a node, with the line it stands on. -/
structure Framed (source : String) (block statement : Node) : Prop where
  behind : block.start < front source statement
  front_le : front source statement ≤ statement.start
  wide : statement.start < statement.stop
  le_rear : statement.stop ≤ rear source statement
  ahead : rear source statement < block.stop
  whole_front : Token.Whole source (front source statement)
  whole_rear : Token.Whole source (rear source statement)

theorem Framed.seat_bounds (frame : Framed source.text block.node statement) (behind : Bool) :
    front source.text statement ≤ seat source.text behind statement ∧
      seat source.text behind statement ≤ rear source.text statement := by
  have whole := (frame.front_le.trans frame.wide.le).trans frame.le_rear
  cases behind with
  | false => exact ⟨Nat.le_refl _, whole⟩
  | true => exact ⟨whole, Nat.le_refl _⟩

/-- A part of a node that stands on lines. -/
theorem framed_of_onLines {source : String} {node part : Node} (lines : OnLines source node)
    (annotated : Annotated (Token.Whole source) node) (listed : part ∈ node.parts) : Framed source node part := by
  have shaped := (annotated.children _ (Edit.mem_parts listed).1).shaped
  obtain ⟨opening, member, ⟨before, c, rest, cut, shows⟩, start, first⟩ := lines.opening
  obtain ⟨closing, member', shows', stop, last⟩ := lines.closing
  have room := Go.Token.wide_of_program member
  have room' := Go.Token.wide_of_program member'
  have first := first part listed
  have last := last part listed
  have wide := (lines.worded part listed).wide
  have early := Text.lineStart_le source part.start
  have late := Text.le_lineEnd source part.stop
  refine ⟨?_, ?_, wide, ?_, ?_, ?_, ?_⟩
  · unfold front
    split
    · rename_i starts
      have later := Text.lt_lineStart cut shows shaped.starts.boundary starts (by omega)
      omega
    · omega
  · unfold front
    split <;> omega
  · unfold rear
    split <;> omega
  · unfold rear
    split
    · rename_i trivia
      have bound := Token.lineEnd_le_start shaped.stops trivia (Token.mem_program.1 member').1
        (Token.solid_of_program member') shows' room' last
      omega
    · omega
  · unfold front
    split
    · rename_i starts
      exact Token.whole_lineStart shaped.starts starts
    · exact shaped.starts
  · unfold rear
    split
    · rename_i trivia
      exact Token.whole_lineEnd shaped.stops trivia
    · exact shaped.stops

/-- Of two parts on lines, the line of the one ends before that of the other begins. -/
theorem pairwise_of_onLines {source : String} {node : Node} (lines : OnLines source node)
    (annotated : Annotated (Token.Whole source) node) :
    node.parts.Pairwise fun a b => rear source a < front source b := by
  refine lines.divided.imp_of_mem fun {a b} listed listed' divided => ?_
  have shaped := (annotated.children _ (Edit.mem_parts listed).1).shaped
  have sound := (annotated.children _ (Edit.mem_parts listed').1).shaped.starts.boundary
  unfold rear front
  split
  · rename_i trivia
    obtain ⟨early, earlier⟩ := divided.lineEnd_lt shaped.stops trivia
    split
    · rename_i starts
      exact earlier sound starts
    · exact early
  · split
    · rename_i starts
      exact divided.lt_lineStart sound starts
    · exact divided.lt

namespace Source

theorem IsParsed.laid (parsed : source.IsParsed) (below : Below source.rootPlace block) :
    Go.Node.Laid (Token.read source.text) block.node := by
  refine Go.Node.Laid.inside ?_ below
  change Go.Node.Laid _ source.tree.root
  rw [parsed]
  exact Go.Tree.parse_laid source.text

theorem framed (parsed : source.IsParsed) (below : Below source.rootPlace block) (is : block.node.kind = .block)
    (listed : statement ∈ block.node.statements) : Framed source.text block.node statement :=
  framed_of_onLines ((parsed.laid below).statements is).onLines (below.annotated parsed.whole) listed

theorem statements_pairwise (parsed : source.IsParsed) (below : Below source.rootPlace block)
    (is : block.node.kind = .block) :
    block.node.statements.Pairwise fun a b => rear source.text a < front source.text b :=
  pairwise_of_onLines ((parsed.laid below).statements is).onLines (below.annotated parsed.whole)

/-- Two statements of a block are the same, or the one ends before the other begins. -/
theorem statements_cases (parsed : source.IsParsed) (below : Below source.rootPlace block)
    (is : block.node.kind = .block) (listed : statement ∈ block.node.statements) (listed' : other ∈ block.node.statements) :
    statement = other ∨ rear source.text statement < front source.text other ∨
      rear source.text other < front source.text statement := by
  have order := statements_pairwise parsed below is
  have pairs : block.node.statements.Pairwise fun a b =>
      a = b ∨ rear source.text a < front source.text b ∨ rear source.text b < front source.text a :=
    order.imp fun before => .inr (.inl before)
  have turned : block.node.statements.Pairwise fun a b =>
      b = a ∨ rear source.text b < front source.text a ∨ rear source.text a < front source.text b :=
    order.imp fun before => .inr (.inr before)
  exact pairs.forall_of_forall_of_flip (fun _ _ => .inl rfl) turned listed listed'

/-- A text for a statement goes beside that, and not beside another statement of the block. -/
theorem seat_cases (parsed : source.IsParsed) (below : Below source.rootPlace block) (is : block.node.kind = .block)
    (listed : statement ∈ block.node.statements) (listed' : other ∈ block.node.statements) (behind : Bool) :
    other = statement ∨ seat source.text behind other < front source.text statement ∨
      rear source.text statement < seat source.text behind other := by
  have bounds := (framed parsed below is listed').seat_bounds behind
  rcases statements_cases parsed below is listed listed' with same | before | after
  · exact .inl same.symm
  · exact .inr (.inr (Nat.lt_of_lt_of_le before bounds.1))
  · exact .inr (.inl (Nat.lt_of_le_of_lt bounds.2 after))

/-- A text for a statement does not go inside a statement. -/
theorem seat_outside (parsed : source.IsParsed) (below : Below source.rootPlace block) (is : block.node.kind = .block)
    (listed : statement ∈ block.node.statements) (listed' : other ∈ block.node.statements) (behind : Bool) :
    seat source.text behind other ≤ statement.start ∨ statement.stop ≤ seat source.text behind other := by
  have frame := framed parsed below is listed
  rcases seat_cases parsed below is listed listed' behind with rfl | before | after
  · cases behind with
    | false => exact .inl frame.front_le
    | true => exact .inr frame.le_rear
  · exact .inl (before.le.trans frame.front_le)
  · exact .inr (frame.le_rear.trans after.le)

theorem spares_front (parsed : source.IsParsed) (below : Below source.rootPlace block)
    (listed : statement ∈ block.node.statements) : source.Spares .block (front source.text statement) := by
  obtain ⟨child, named, solid⟩ := Edit.mem_parts listed
  have inside : Below source.rootPlace (block.inside statement) := below.inside (List.mem_filter.2 ⟨child, named⟩)
  unfold front
  split
  · rename_i starts
    exact spares_lineStart parsed inside solid starts
  · exact spares_start parsed inside solid

theorem spares_rear (parsed : source.IsParsed) (below : Below source.rootPlace block)
    (listed : statement ∈ block.node.statements) : source.Spares .block (rear source.text statement) := by
  obtain ⟨child, named, solid⟩ := Edit.mem_parts listed
  have inside : Below source.rootPlace (block.inside statement) := below.inside (List.mem_filter.2 ⟨child, named⟩)
  unfold rear
  split
  · rename_i trivia
    exact spares_lineEnd parsed (.inr rfl) inside solid trivia
  · exact spares_stop parsed inside solid

end Source

/-! Edits that are held by a block. -/

/-- An edit between the braces of a block, and not inside a token. -/
structure Between (source : String) (block : Node) (edit : Edit) : Prop where
  opened : block.start < edit.start
  order : edit.start ≤ edit.stop
  closed : edit.stop < block.stop
  starts : Token.Whole source edit.start
  stops : Token.Whole source edit.stop

/-- An edit beside a statement of a block, or in a block without statements. -/
structure Held (source : Source) (home : Place) (edit : Edit) : Prop extends Between source.text home.node edit where
  below : Below source.rootPlace home
  is : home.node.kind = .block
  seated : home.node.statements = [] ∨ edit.stop = edit.start ∧
    ∃ statement ∈ home.node.statements, ∃ behind, edit.start = seat source.text behind statement

/-- What is inside a block is inside one of its statements, unless it is a comment. -/
theorem Go.Place.Inside.exists_statement {sound : Nat → Prop} (inside : Inside block place)
    (annotated : Annotated sound block.node) (solid : place.kind ≠ .comment) :
    ∃ statement ∈ block.node.statements, statement.start ≤ place.start ∧ place.stop ≤ statement.stop := by
  obtain ⟨child, member, below⟩ := inside
  obtain ⟨listed, named⟩ := List.mem_filter.1 member
  have formed : Annotated sound (block.inside child).node := annotated.children child listed
  refine ⟨child, List.mem_filter.2 ⟨listed, ?_⟩, below.within formed⟩
  have code : child.kind ≠ .comment := by
    intro comment
    rw [below.of_comment formed comment] at solid
    exact solid comment
  simp [named, code]

namespace Held

variable {home : Place}

/-- Where an edit is, seen from a block. -/
theorem cases (held : Held source home edit) (parsed : source.IsParsed) (below : Below source.rootPlace block)
    (is : block.node.kind = .block) :
    home = block ∨ (∃ statement ∈ block.node.statements, statement.start ≤ home.start ∧ home.stop ≤ statement.stop) ∨
      edit.stop ≤ block.start ∨ block.stop ≤ edit.start := by
  have opened : home.start < edit.start := held.opened
  have closed : edit.stop < home.stop := held.closed
  have order := held.order
  have solid : home.kind ≠ .comment := by simp [Place.kind, held.is]
  have solid' : block.kind ≠ .comment := by simp [Place.kind, is]
  rcases Place.descendants_cases parsed.annotated below held.below with rfl | (inside | before) | (inside | after)
  · exact .inl rfl
  · exact .inr (.inl (inside.exists_statement (below.annotated parsed.annotated) solid))
  · exact .inr (.inr (.inr (by omega)))
  · -- the block is inside a statement of the other one, and the edit is beside that or beside another
    obtain ⟨around, listed, first, last⟩ := inside.exists_statement (held.below.annotated parsed.annotated) solid'
    rcases held.seated with none | ⟨point, statement, listed', behind, start⟩
    · rw [none] at listed
      cases listed
    · have outside := Source.seat_outside parsed held.below held.is listed listed' behind
      rw [← start] at outside
      exact .inr (.inr (outside.imp (fun early => (point.le.trans early).trans first) fun late => last.trans late))
  · exact .inr (.inr (.inl (by omega)))

/-- On the lines of a statement, an edit is beside it or inside it. -/
theorem near (held : Held source home edit) (parsed : source.IsParsed) (below : Below source.rootPlace block)
    (is : block.node.kind = .block) (listed : statement ∈ block.node.statements)
    (lower : front source.text statement ≤ edit.start) (upper : edit.start ≤ rear source.text statement) :
    (home = block ∧ edit.stop = edit.start ∧ ∃ behind, edit.start = seat source.text behind statement) ∨
      (statement.start ≤ home.start ∧ home.stop ≤ statement.stop) := by
  have frame := Source.framed parsed below is listed
  have opened : home.start < edit.start := held.opened
  have closed : edit.stop < home.stop := held.closed
  have order := held.order
  rcases held.cases parsed below is with rfl | ⟨other, listed', first, last⟩ | early | late
  · rcases held.seated with none | ⟨point, other, listed', behind, start⟩
    · rw [none] at listed
      cases listed
    · rcases Source.seat_cases parsed below is listed listed' behind with rfl | before | after
      · exact .inl ⟨rfl, point, behind, start⟩
      · omega
      · omega
  · have frame' := Source.framed parsed below is listed'
    have front_le := frame'.front_le
    have le_rear := frame'.le_rear
    rcases Source.statements_cases parsed below is listed listed' with rfl | before | after
    · exact .inr ⟨first, last⟩
    · omega
    · omega
  · have behind : block.start < front source.text statement := frame.behind
    omega
  · have ahead : rear source.text statement < block.stop := frame.ahead
    omega

/-- What goes beside a statement is an insertion of its block. -/
theorem at_seat (held : Held source home edit) (parsed : source.IsParsed) (below : Below source.rootPlace block)
    (is : block.node.kind = .block) (listed : statement ∈ block.node.statements) (behind : Bool)
    (start : edit.start = seat source.text behind statement) : home = block ∧ edit.stop = edit.start := by
  have frame := Source.framed parsed below is listed
  have bounds := frame.seat_bounds behind
  rw [← start] at bounds
  rcases held.near parsed below is listed bounds.1 bounds.2 with ⟨same, point, _⟩ | ⟨first, last⟩
  · exact ⟨same, point⟩
  · have opened : home.start < edit.start := held.opened
    have closed : edit.stop < home.stop := held.closed
    have order := held.order
    have outside := Source.seat_outside parsed below is listed listed behind
    rw [← start] at outside
    omega

/-- What goes inside a statement is what goes into the blocks inside it. -/
theorem inside_iff (held : Held source home edit) (parsed : source.IsParsed) (below : Below source.rootPlace block)
    (is : block.node.kind = .block) (listed : statement ∈ block.node.statements) :
    (statement.start < edit.start ∧ edit.start < statement.stop) ↔
      (statement.start ≤ home.start ∧ home.stop ≤ statement.stop) := by
  have frame := Source.framed parsed below is listed
  have opened : home.start < edit.start := held.opened
  have closed : edit.stop < home.stop := held.closed
  have order := held.order
  refine ⟨fun ⟨lower, upper⟩ => ?_, fun _ => by omega⟩
  rcases held.near parsed below is listed (frame.front_le.trans lower.le) (upper.le.trans frame.le_rear) with
    ⟨_, _, behind, start⟩ | inside
  · have outside := Source.seat_outside parsed below is listed listed behind
    rw [← start] at outside
    omega
  · exact inside

/-- Nothing goes between a statement and the places beside it. -/
theorem not_between (held : Held source home edit) (parsed : source.IsParsed) (below : Below source.rootPlace block)
    (is : block.node.kind = .block) (listed : statement ∈ block.node.statements) :
    ¬ (front source.text statement < edit.start ∧ edit.start ≤ statement.start) ∧
      ¬ (statement.stop ≤ edit.start ∧ edit.start < rear source.text statement) := by
  have frame := Source.framed parsed below is listed
  have opened : home.start < edit.start := held.opened
  have closed : edit.stop < home.stop := held.closed
  have order := held.order
  have wide := frame.wide
  have front_le := frame.front_le
  have le_rear := frame.le_rear
  have beside : ∀ behind, edit.start = seat source.text behind statement →
      edit.start = front source.text statement ∨ edit.start = rear source.text statement := by
    rintro (_ | _) start
    · exact .inl start
    · exact .inr start
  refine ⟨fun gap => ?_, fun gap => ?_⟩
  · rcases held.near parsed below is listed (by omega) (by omega) with ⟨_, _, behind, start⟩ | ⟨first, last⟩
    · have place := beside behind start
      omega
    · omega
  · rcases held.near parsed below is listed (by omega) (by omega) with ⟨_, _, behind, start⟩ | ⟨first, last⟩
    · have place := beside behind start
      omega
    · omega

/-- Nothing goes between one statement and the next. -/
theorem not_in_gap (held : Held source home edit) (parsed : source.IsParsed) (below : Below source.rootPlace block)
    (is : block.node.kind = .block) (busy : block.node.statements ≠ []) (first last : Nat)
    (apart : ∀ statement ∈ block.node.statements,
      rear source.text statement ≤ first ∨ last ≤ front source.text statement)
    (behind : block.start ≤ first) (ahead : last ≤ block.stop) : ¬ (first < edit.start ∧ edit.start < last) := by
  rintro ⟨lower, upper⟩
  have opened : home.start < edit.start := held.opened
  have closed : edit.stop < home.stop := held.closed
  have order := held.order
  rcases held.cases parsed below is with rfl | ⟨statement, listed, begun, ended⟩ | early | late
  · rcases held.seated with none | ⟨_, statement, listed, side, start⟩
    · exact busy none
    · have bounds := (Source.framed parsed below is listed).seat_bounds side
      rw [← start] at bounds
      have away := apart statement listed
      omega
  · have frame := Source.framed parsed below is listed
    have front_le := frame.front_le
    have le_rear := frame.le_rear
    have away := apart statement listed
    omega
  · omega
  · omega

/-- Edits do not reach across an offset outside of blocks that have no statements. -/
theorem stop_le (held : Held source home edit) (spares : source.Spares .block offset) (begun : edit.start ≤ offset) :
    edit.stop ≤ offset := by
  rcases held.seated with none | ⟨point, _⟩
  · have opened : home.start < edit.start := held.opened
    have closed : edit.stop < home.stop := held.closed
    rcases spares home ⟨held.below, held.is, none⟩ with before | after <;> omega
  · omega

end Held

end TraceWeave
