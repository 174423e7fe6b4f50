import TraceWeave.Proofs.Splice

/-!
What a batch makes of a stretch of a text. The result of a batch is put together from what it makes of one
stretch after the other, as long as no edit reaches from one into the next; a stretch without edits stays as it
is, and at one offset the insertions follow each other in the order of the batch.
-/
namespace TraceWeave.Edit

variable {source text : String} {done mid stop offset : Nat} {edit : Edit} {edits edits' : List Edit}

/-! Ordered edits. -/

/-- The text from one offset to another, with ordered edits carried out. -/
def rendered (source : String) (stop : Nat) : Nat → List Edit → String
  | done, [] => Text.slice source done stop
  | done, edit :: edits => Text.slice source done edit.start ++ edit.text ++ rendered source stop edit.stop edits

/-- Edits one after the other from one offset to another. -/
inductive Row (source : String) (stop : Nat) : Nat → List Edit → Prop
  | nil {done : Nat} (starts : Text.isBoundary source done = true) (stops : Text.isBoundary source stop = true)
      (order : done ≤ stop) : Row source stop done []
  | cons {done : Nat} {edit : Edit} {edits : List Edit} (starts : Text.isBoundary source done = true)
      (spans : Spans source edit) (order : done ≤ edit.start) (rest : Row source stop edit.stop edits) :
      Row source stop done (edit :: edits)

namespace Row

/-- A row begins earlier as well. -/
theorem back (row : Row source stop mid edits) (sound : Text.isBoundary source done = true) (order : done ≤ mid) :
    Row source stop done edits ∧
      rendered source stop done edits = Text.slice source done mid ++ rendered source stop mid edits := by
  cases row with
  | nil starts stops wide =>
      exact ⟨.nil sound stops (order.trans wide), (Text.slice_append sound starts stops order wide).symm⟩
  | cons starts spans later rest =>
      refine ⟨.cons sound spans (order.trans later) rest, ?_⟩
      rw [rendered, rendered, ← Text.slice_append sound starts spans.starts order later]
      simp only [String.append_assoc]

theorem append (row : Row source mid done edits) (row' : Row source stop mid edits') :
    Row source stop done (edits ++ edits') ∧
      rendered source stop done (edits ++ edits') = rendered source mid done edits ++ rendered source stop mid edits' := by
  induction row with
  | nil starts _ order => exact row'.back starts order
  | cons starts spans order rest ih =>
      obtain ⟨further, same⟩ := ih
      refine ⟨.cons starts spans order further, ?_⟩
      rw [List.cons_append, rendered, same, rendered]
      simp only [String.append_assoc]

end Row

/-- Edits that follow each other between two offsets. -/
theorem row_of_pairwise (each : ∀ edit ∈ edits, Spans source edit) (chain : edits.Pairwise fun a b => a.stop ≤ b.start)
    (starts : Text.isBoundary source done = true) (stops : Text.isBoundary source stop = true) (order : done ≤ stop)
    (reached : ∀ edit ∈ edits, done ≤ edit.start) (bounded : ∀ edit ∈ edits, edit.stop ≤ stop) :
    Row source stop done edits := by
  induction edits generalizing done with
  | nil => exact .nil starts stops order
  | cons edit edits ih =>
      obtain ⟨spans, each⟩ := List.forall_mem_cons.1 each
      obtain ⟨follow, chain⟩ := List.pairwise_cons.1 chain
      obtain ⟨bound, bounded⟩ := List.forall_mem_cons.1 bounded
      exact .cons starts spans (reached edit List.mem_cons_self) (ih each chain spans.stops bound follow bounded)

/-- The edits of a batch that was carried out follow each other. -/
theorem inOrder_chain (performed : perform source edits = .ok text) :
    (inOrder edits).Pairwise fun a b => a.stop ≤ b.start := by
  have each : ∀ edit ∈ inOrder edits, Spans source edit := fun edit member => (performFrom_fits performed edit member).spans
  have apart : (inOrder edits).Pairwise Apart := (performFrom_apart performed).2
  refine (apart.and (inOrder_pairwise edits)).imp_of_mem fun {a b} member member' both => ?_
  exact both.1.stop_le (each a member) (each b member') both.2

/-- The result of a batch, as its edits in order make it. -/
theorem performFrom_row (sound : Text.isBoundary source done = true) (performed : performFrom source done edits = .ok text) :
    Row source (Text.size source) done edits ∧ text = rendered source (Text.size source) done edits := by
  induction edits generalizing done text with
  | nil =>
      cases performed
      exact ⟨.nil sound (Text.isBoundary_size source) (Text.le_size_of_isBoundary sound), rfl⟩
  | cons edit edits ih =>
      have fits := performFrom_fits performed edit List.mem_cons_self
      have begun := (performFrom_apart performed).1 edit List.mem_cons_self
      obtain ⟨rest, carried, stops, rfl, _⟩ := exists_of_performFrom_cons sound performed
      obtain ⟨row, same⟩ := ih stops carried
      exact ⟨.cons sound fits.spans begun row, by rw [rendered, same]⟩

/-- What a single edit makes of a text. -/
theorem text_of_single (performed : perform source [edit] = .ok text) :
    text = Text.slice source 0 edit.start ++ edit.text ++ Text.slice source edit.stop (Text.size source) := by
  have made := (performFrom_row (Text.isBoundary_zero source) performed).2
  rwa [inOrder, List.mergeSort_singleton] at made

theorem text_of_insertAt {new : String} (performed : perform source [insertAt offset new] = .ok text) :
    text = Text.slice source 0 offset ++ new ++ Text.slice source offset (Text.size source) := by
  have made := text_of_single performed
  exact made

theorem text_of_replaceNode {node : Go.Node} {new : String}
    (performed : perform source [replaceNode node new] = .ok text) :
    text = Text.slice source 0 node.start ++ new ++ Text.slice source node.stop (Text.size source) := by
  have made := text_of_single performed
  exact made

/-- Edits that are picked from a batch keep their order. -/
theorem inOrder_filter (test : Edit → Bool) (edits : List Edit) :
    inOrder (edits.filter test) = (inOrder edits).filter test := by
  refine eq_of_tied goesBefore_total (inOrder_pairwise _) ((inOrder_pairwise edits).filter test) fun edit => ?_
  rw [inOrder, filter_tied_mergeSort goesBefore_trans goesBefore_total, List.filter_comm, List.filter_comm _ test, inOrder,
    filter_tied_mergeSort goesBefore_trans goesBefore_total]

/-! Stretches. -/

/-- A place between two characters, before the insertions there or past them: edits that begin before `limit` are
on the one side of it. -/
structure Edge where
  offset : Nat
  limit : Nat

/-- Before the insertions at an offset. -/
def Edge.before (offset : Nat) : Edge := ⟨offset, offset⟩

/-- Past the insertions at an offset. -/
def Edge.past (offset : Nat) : Edge := ⟨offset, offset + 1⟩

/-- No edit of a batch reaches across an edge. -/
structure Edge.Parts (source : String) (edits : List Edit) (edge : Edge) : Prop where
  boundary : Text.isBoundary source edge.offset = true
  early : ∀ edit ∈ edits, edit.start < edge.limit → edit.stop ≤ edge.offset
  late : ∀ edit ∈ edits, edge.limit ≤ edit.start → edge.offset ≤ edit.start

/-- Edits of a batch between two edges, in order. -/
def within (edits : List Edit) (first last : Edge) : List Edit :=
  (inOrder edits).filter fun edit => decide (first.limit ≤ edit.start) && decide (edit.start < last.limit)

/-- What a batch makes of a stretch. -/
def stretch (source : String) (edits : List Edit) (first last : Edge) : String :=
  rendered source last.offset first.offset (within edits first last)

variable {first last edge : Edge}

theorem mem_within : edit ∈ within edits first last ↔ edit ∈ edits ∧ first.limit ≤ edit.start ∧ edit.start < last.limit := by
  rw [within, List.mem_filter, mem_inOrder, Bool.and_eq_true, decide_eq_true_eq, decide_eq_true_eq]

/-- Between sorted numbers a limit falls at one place. -/
theorem filter_split {items : List Edit} (sorted : items.Pairwise fun a b => a.start ≤ b.start) {low high : Nat}
    (order : low ≤ mid) (order' : mid ≤ high) :
    items.filter (fun edit => decide (low ≤ edit.start) && decide (edit.start < high)) =
      items.filter (fun edit => decide (low ≤ edit.start) && decide (edit.start < mid)) ++
        items.filter (fun edit => decide (mid ≤ edit.start) && decide (edit.start < high)) := by
  induction items with
  | nil => rfl
  | cons item items ih =>
      obtain ⟨least, sorted⟩ := List.pairwise_cons.1 sorted
      rw [List.filter_cons, List.filter_cons, List.filter_cons, ih sorted]
      by_cases early : item.start < mid
      · have not_late : ¬ mid ≤ item.start := by omega
        have low_high : item.start < high := by omega
        simp only [early, not_late, low_high, decide_true, decide_false, Bool.and_true, Bool.false_eq_true,
          if_false]
        split <;> rfl
      · have none : items.filter (fun edit => decide (low ≤ edit.start) && decide (edit.start < mid)) = [] := by
          refine List.filter_eq_nil_iff.2 fun other member => ?_
          have later := least other member
          simp only [Bool.and_eq_true, decide_eq_true_eq]
          omega
        have low_mid : low ≤ item.start := by omega
        have mid_item : mid ≤ item.start := by omega
        rw [none]
        simp [early, low_mid, mid_item]

theorem within_split (order : first.limit ≤ edge.limit) (order' : edge.limit ≤ last.limit) :
    within edits first last = within edits first edge ++ within edits edge last := by
  refine filter_split ((inOrder_pairwise edits).imp fun {a b} before => ?_) order order'
  rcases goesBefore_iff.1 before with less | ⟨same, _⟩ <;> omega

/-- Edits between two edges are a row. -/
theorem within_row (performed : perform source edits = .ok text) (starts : first.Parts source edits)
    (stops : last.Parts source edits) (order : first.offset ≤ last.offset) :
    Row source last.offset first.offset (within edits first last) := by
  refine row_of_pairwise (fun edit member => ?_) ((inOrder_chain performed).filter _) starts.boundary stops.boundary
    order (fun edit member => ?_) fun edit member => ?_
  · exact (performFrom_fits performed edit (List.mem_filter.1 member).1).spans
  · exact starts.late edit (mem_within.1 member).1 (mem_within.1 member).2.1
  · exact stops.early edit (mem_within.1 member).1 (mem_within.1 member).2.2

/-- Two stretches, one after the other. -/
theorem stretch_append (performed : perform source edits = .ok text) (starts : first.Parts source edits)
    (parts : edge.Parts source edits) (stops : last.Parts source edits)
    (here : first.offset ≤ edge.offset ∧ first.limit ≤ edge.limit)
    (there : edge.offset ≤ last.offset ∧ edge.limit ≤ last.limit) :
    stretch source edits first last = stretch source edits first edge ++ stretch source edits edge last := by
  rw [stretch, within_split here.2 there.2]
  exact ((within_row performed starts parts here.1).append (within_row performed parts stops there.1)).2

/-- A stretch that no edit begins in stays. -/
theorem stretch_bare (bare : ∀ edit ∈ edits, ¬ (first.limit ≤ edit.start ∧ edit.start < last.limit)) :
    stretch source edits first last = Text.slice source first.offset last.offset := by
  have none : within edits first last = [] :=
    List.eq_nil_iff_forall_not_mem.2 fun edit member => bare edit (mem_within.1 member).1 (mem_within.1 member).2
  rw [stretch, none, rendered]

theorem rendered_point (each : ∀ edit ∈ edits, edit.start = offset ∧ edit.stop = offset) :
    rendered source offset offset edits = String.join (edits.map (·.text)) := by
  induction edits with
  | nil => exact Text.slice_self source offset
  | cons edit edits ih =>
      obtain ⟨⟨start, stop⟩, each⟩ := List.forall_mem_cons.1 each
      rw [rendered, start, stop, ih each, Text.slice_self, String.empty_append, List.map_cons, String.join_cons]

/-- Insertions at one offset stand there in the order of the batch. -/
theorem stretch_point (each : ∀ edit ∈ edits, edit.start = offset → edit.stop = offset) :
    stretch source edits (.before offset) (.past offset) =
      String.join ((edits.filter fun edit => edit.start == offset).map (·.text)) := by
  have insertion : ∀ edit ∈ edits, edit.start = offset → edit.isInsertion = true := fun edit member starts =>
    beq_iff_eq.2 (starts.trans (each edit member starts).symm)
  -- insertions at the offset are tied with each other, and with nothing else
  have tie : ∀ edit ∈ edits, tied goesBefore (insertAt offset "") edit = (edit.start == offset) := by
    intro edit member
    rw [tied_goesBefore]
    change (edit.start == offset && edit.isInsertion == (offset == offset)) = (edit.start == offset)
    cases same : edit.start == offset with
    | false => rfl
    | true => rw [insertion edit member (beq_iff_eq.1 same), beq_self_eq_true]; rfl
  have these : within edits (.before offset) (.past offset) = edits.filter fun edit => edit.start == offset := by
    rw [← List.filter_congr tie, ← filter_tied_mergeSort goesBefore_trans goesBefore_total]
    refine List.filter_congr fun edit member => ?_
    rw [tie edit (mem_inOrder.1 member), Bool.eq_iff_iff, Bool.and_eq_true, decide_eq_true_eq, decide_eq_true_eq, beq_iff_eq]
    change (offset ≤ edit.start ∧ edit.start < offset + 1) ↔ _
    omega
  rw [stretch, these]
  refine rendered_point fun edit member => ?_
  obtain ⟨listed, starts⟩ := List.mem_filter.1 member
  exact ⟨beq_iff_eq.1 starts, each edit listed (beq_iff_eq.1 starts)⟩

/-- The result of a batch is what it makes of the whole text. -/
theorem perform_eq_stretch (performed : perform source edits = .ok text) :
    text = stretch source edits (.before 0) (.past (Text.size source)) := by
  have all : within edits (.before 0) (.past (Text.size source)) = inOrder edits := by
    refine List.filter_eq_self.2 fun edit member => ?_
    have fits := performFrom_fits performed edit member
    have bound := fits.order.trans fits.inside
    rw [Bool.and_eq_true, decide_eq_true_eq, decide_eq_true_eq]
    exact ⟨Nat.zero_le _, Nat.lt_succ_of_le bound⟩
  rw [stretch, all]
  exact (performFrom_row (Text.isBoundary_zero source) performed).2

/-- What a batch makes of a stretch stands in its result. -/
theorem exists_around (performed : perform source edits = .ok text) (starts : first.Parts source edits)
    (stops : last.Parts source edits) (order : first.offset ≤ last.offset ∧ first.limit ≤ last.limit)
    (reach : last.limit ≤ last.offset + 1) : ∃ early late, text = early ++ stretch source edits first last ++ late := by
  have fits := performFrom_fits performed
  have low : (Edge.before 0).Parts source edits :=
    ⟨Text.isBoundary_zero source, fun _ _ contrary => absurd contrary (Nat.not_lt_zero _), fun _ _ _ => Nat.zero_le _⟩
  have high : (Edge.past (Text.size source)).Parts source edits :=
    ⟨Text.isBoundary_size source, fun edit member _ => (fits edit (mem_inOrder.2 member)).inside,
      fun edit member late => Nat.le_of_succ_le late⟩
  have bound : last.offset ≤ Text.size source := Text.le_size_of_isBoundary stops.boundary
  have limit : last.limit ≤ Text.size source + 1 := reach.trans (Nat.succ_le_succ bound)
  refine ⟨stretch source edits (.before 0) first, stretch source edits last (.past (Text.size source)), ?_⟩
  rw [perform_eq_stretch performed, stretch_append performed low starts high ⟨Nat.zero_le _, Nat.zero_le _⟩
    ⟨order.1.trans bound, order.2.trans limit⟩, stretch_append performed starts stops high order ⟨bound, limit⟩]
  simp only [String.append_assoc]

end TraceWeave.Edit
