import TraceWeave.Proofs.Text.Offset
import TraceWeave.Edit.Basic

/-! Batches of edits that are carried out: those whose edits begin and end between characters and keep
out of each other's way. Insertions always do. -/
namespace TraceWeave.Edit

/-- An edit that puts a text between two characters. -/
structure Inserts (source : String) (edit : Edit) : Prop where
  point : edit.start = edit.stop
  boundary : Text.isBoundary source edit.start = true

/-- The bytes between two characters. -/
structure Spans (source : String) (edit : Edit) : Prop where
  order : edit.start ≤ edit.stop
  starts : Text.isBoundary source edit.start = true
  stops : Text.isBoundary source edit.stop = true

/-- Neither of two edits reaches into what the other one replaces. -/
def Apart (a b : Edit) : Prop := a.stop ≤ b.start ∨ b.stop ≤ a.start

variable {source : String} {offset done : Nat} {a b edit : Edit} {edits : List Edit}

theorem start_insertAt (offset : Nat) (text : String) : (insertAt offset text).start = offset := rfl

theorem inserts_insertAt (text : String) (sound : Text.isBoundary source offset = true) :
    Inserts source (insertAt offset text) := ⟨rfl, sound⟩

theorem goesBefore_iff : a.goesBefore b = true ↔
    a.start < b.start ∨ a.start = b.start ∧ (a.isInsertion = true ∨ b.isInsertion = false) := by
  simp [goesBefore]

theorem goesBefore_trans (a b c : Edit) (first : a.goesBefore b = true) (second : b.goesBefore c = true) :
    a.goesBefore c = true := by
  rw [goesBefore_iff] at first second ⊢
  rcases first with less | ⟨same, rank⟩
  · rcases second with less' | ⟨same', _⟩
    · exact .inl (Nat.lt_trans less less')
    · exact .inl (same' ▸ less)
  · rcases second with less' | ⟨same', rank'⟩
    · exact .inl (same ▸ less')
    · refine .inr ⟨same.trans same', ?_⟩
      rcases rank with first | second
      · exact .inl first
      · exact rank'.elim (fun contrary => absurd contrary (by simp [second])) .inr

theorem goesBefore_total (a b : Edit) : (a.goesBefore b || b.goesBefore a) = true := by
  rw [Bool.or_eq_true, goesBefore_iff, goesBefore_iff]
  rcases Nat.lt_trichotomy a.start b.start with less | same | more
  · exact .inl (.inl less)
  · cases rank : a.isInsertion with
    | true => exact .inl (.inr ⟨same, .inl rfl⟩)
    | false => exact .inr (.inr ⟨same.symm, .inr rfl⟩)
  · exact .inr (.inl more)

theorem inOrder_pairwise (edits : List Edit) : (inOrder edits).Pairwise fun a b => a.goesBefore b = true :=
  List.pairwise_mergeSort goesBefore_trans goesBefore_total edits

theorem mem_inOrder : edit ∈ inOrder edits ↔ edit ∈ edits := List.mem_mergeSort

theorem Apart.symm (apart : Apart a b) : Apart b a := Or.symm apart

theorem Inserts.spans (inserts : Inserts source edit) : Spans source edit :=
  ⟨Nat.le_of_eq inserts.point, inserts.boundary, inserts.point ▸ inserts.boundary⟩

theorem Inserts.apart (first : Inserts source a) (second : Inserts source b) : Apart a b := by
  have point := first.point
  have point' := second.point
  unfold Apart
  omega

/-- The one that goes first ends before the other one begins. -/
theorem Apart.stop_le (apart : Apart a b) (first : Spans source a) (second : Spans source b)
    (order : a.goesBefore b = true) : a.stop ≤ b.start := by
  have size := first.order
  have size' := second.order
  rcases goesBefore_iff.1 order with less | ⟨same, rank⟩
  · rcases apart with before | after
    · exact before
    · omega
  · rcases rank with insertion | replacement
    · have point : a.start = a.stop := beq_iff_eq.1 insertion
      omega
    · have wide : b.start ≠ b.stop := beq_eq_false_iff_ne.1 replacement
      rcases apart with before | after
      · exact before
      · omega

theorem refusal?_of_spans (spans : Spans source edit) (reached : done ≤ edit.start) :
    refusal? source done edit = none := by
  have bound := Text.le_size_of_isBoundary spans.stops
  simp [refusal?, spans.starts, spans.stops, Nat.not_lt.2 reached, Nat.not_lt.2 bound, Nat.not_lt.2 spans.order]

theorem performFrom_of_apart (each : ∀ edit ∈ edits, Spans source edit) (apart : edits.Pairwise Apart)
    (order : edits.Pairwise fun a b => a.goesBefore b = true) (reached : ∀ edit ∈ edits, done ≤ edit.start) :
    ∃ text, performFrom source done edits = .ok text := by
  induction edits generalizing done with
  | nil => exact ⟨_, rfl⟩
  | cons edit edits ih =>
      obtain ⟨spans, each⟩ := List.forall_mem_cons.1 each
      obtain ⟨beside, apart⟩ := List.pairwise_cons.1 apart
      obtain ⟨first, order⟩ := List.pairwise_cons.1 order
      obtain ⟨here, _⟩ := List.forall_mem_cons.1 reached
      have later : ∀ other ∈ edits, edit.stop ≤ other.start := fun other member =>
        (beside other member).stop_le spans (each other member) (first other member)
      obtain ⟨rest, carried⟩ := ih each apart order later
      refine ⟨Text.slice source done edit.start ++ edit.text ++ rest, ?_⟩
      rw [performFrom, refusal?_of_spans spans here, carried]
      rfl

/-- A batch of edits that keep out of each other's way is carried out. -/
theorem perform_of_apart (each : ∀ edit ∈ edits, Spans source edit) (apart : edits.Pairwise Apart) :
    ∃ text, perform source edits = .ok text := by
  refine performFrom_of_apart (fun edit member => each edit (mem_inOrder.1 member)) ?_ (inOrder_pairwise edits)
    fun _ _ => Nat.zero_le _
  exact (List.mergeSort_perm edits goesBefore).symm.pairwise apart fun together => together.symm

/-- A batch of insertions is carried out. -/
theorem perform_of_inserts (each : ∀ edit ∈ edits, Inserts source edit) :
    ∃ text, perform source edits = .ok text := by
  refine perform_of_apart (fun edit member => (each edit member).spans) ?_
  exact List.pairwise_of_forall_mem_list fun a member b member' => (each a member).apart (each b member')

end TraceWeave.Edit
