import Mathlib.Data.List.Pairwise
import TraceWeave.Proofs.Edit
import TraceWeave.Edit.Statement
import TraceWeave.Weave.Insertion

/-! Characters that show. An edit that puts more of them into a text than it takes away changes the
text, and so does a batch of such edits; edits whose texts hold what they take away lose nothing. -/
namespace TraceWeave

namespace Text

/-- Characters other than white space. -/
def ink (s : String) : List Char := s.toList.filter (!isBlank ·)

variable {source : String} {start stop final offset : Nat}

theorem ink_append (a b : String) : ink (a ++ b) = ink a ++ ink b := by
  rw [ink, String.toList_append, List.filter_append]
  rfl

/-- Something is there to see. -/
def Shows (s : String) : Prop := 0 < (ink s).length

instance (s : String) : Decidable (Shows s) := inferInstanceAs (Decidable (0 < (ink s).length))

theorem Shows.before {a : String} (shows : Shows a) (b : String) : Shows (a ++ b) := by
  rw [Shows, ink_append, List.length_append]
  exact Nat.lt_of_lt_of_le shows (Nat.le_add_right _ _)

theorem Shows.after {b : String} (shows : Shows b) (a : String) : Shows (a ++ b) := by
  rw [Shows, ink_append, List.length_append]
  exact Nat.lt_of_lt_of_le shows (Nat.le_add_left _ _)

theorem ink_of_isAllBlank {s : String} (blank : isAllBlank s = true) : ink s = [] := by
  rw [ink, List.filter_eq_nil_iff]
  intro c member
  simp [List.all_eq_true.1 blank c member]

theorem ink_trimStart (s : String) : ink (trimStart s) = ink s := by
  unfold ink trimStart dropStart
  rw [String.toList_ofList]
  induction s.toList with
  | nil => rfl
  | cons c cs ih =>
      rw [List.dropWhile_cons]
      split
      · rename_i blank
        rw [ih, List.filter_cons_of_neg (by simp [blank])]
      · rfl

/-- Of two cuts, the earlier one is before the later one. -/
theorem Cut.exists_between {before after before' after' : List Char} (first : Cut source start before after)
    (last : Cut source stop before' after') (order : start ≤ stop) :
    ∃ between, before' = before ++ between ∧ after = between ++ after' := by
  have whole := first.whole.symm.trans last.whole
  rcases List.append_eq_append_iff.1 whole with ⟨between, same, same'⟩ | ⟨between, same, same'⟩
  · exact ⟨between, same, same'⟩
  · have bytes := first.size
    rw [same, byteCount_append, last.size] at bytes
    have nothing : between = [] := by
      cases between with
      | nil => rfl
      | cons c cs =>
          have wide := c.utf8Size_pos
          rw [byteCount_cons] at bytes
          omega
    subst nothing
    rw [List.append_nil] at same
    exact ⟨[], by rw [List.append_nil, same], same'.symm⟩

theorem slice_append (sound : isBoundary source start = true) (sound' : isBoundary source stop = true)
    (sound'' : isBoundary source final = true) (order : start ≤ stop) (order' : stop ≤ final) :
    slice source start stop ++ slice source stop final = slice source start final := by
  obtain ⟨before, after, cut⟩ := isBoundary_iff.1 sound
  obtain ⟨before', after', cut'⟩ := isBoundary_iff.1 sound'
  obtain ⟨before'', after'', cut''⟩ := isBoundary_iff.1 sound''
  obtain ⟨between, rfl, rfl⟩ := cut.exists_between cut' order
  obtain ⟨between', rfl, rfl⟩ := cut'.exists_between cut'' order'
  have whole : Cut source start before ((between ++ between') ++ after'') := by rwa [List.append_assoc]
  have whole' : Cut source final (before ++ (between ++ between')) after'' := by rwa [← List.append_assoc]
  rw [cut.slice_eq cut', cut'.slice_eq cut'', whole.slice_eq whole', String.ofList_append]

theorem slice_whole (source : String) : slice source 0 (size source) = source := by
  have first : Cut source 0 [] (source.toList ++ []) := by
    rw [List.append_nil]
    exact cut_start source
  rw [first.slice_eq (cut_stop source), String.ofList_toList]

theorem slice_self (source : String) (offset : Nat) : slice source offset offset = "" := by
  simp [slice, String.Pos.Raw.extract]

theorem size_append (a b : String) : size (a ++ b) = size a + size b := String.utf8ByteSize_append

theorem size_slice {source : String} {start stop : Nat} (starts : isBoundary source start = true)
    (stops : isBoundary source stop = true) (order : start ≤ stop) : start + size (slice source start stop) = stop := by
  obtain ⟨before, after, cut⟩ := isBoundary_iff.1 starts
  obtain ⟨before', after', cut'⟩ := isBoundary_iff.1 stops
  obtain ⟨between, rfl, rfl⟩ := cut.exists_between cut' order
  rw [cut.slice_eq cut', size_ofList, ← cut.size, ← byteCount_append, cut'.size]

end Text

namespace Edit

open Text (ink Shows)

/-- More shows afterwards. -/
def Gains (source : String) (edit : Edit) : Prop :=
  (ink (Text.slice source edit.start edit.stop)).length < (ink edit.text).length

variable {source text : String} {done : Nat} {edits : List Edit} {edit : Edit}

/-- The empty batch leaves a text as it is. -/
theorem perform_nil (source : String) : perform source [] = .ok source := by
  rw [perform, inOrder, List.mergeSort_nil, performFrom_nil, Text.slice_whole]

theorem gains_insertAt {offset : Nat} (shows : Shows text) : Gains source (insertAt offset text) := by
  change (ink (Text.slice source offset offset)).length < (ink text).length
  rw [Text.slice_self]
  exact shows

/-- What an edit that is not refused looks like. -/
theorem of_refusal?_eq_none (fine : refusal? source done edit = none) :
    done ≤ edit.start ∧ edit.start ≤ edit.stop ∧ edit.stop ≤ Text.size source ∧
      Text.isBoundary source edit.start = true ∧ Text.isBoundary source edit.stop = true := by
  unfold refusal? at fine
  split at fine
  · cases fine
  · rename_i inside
    split at fine
    · cases fine
    · rename_i sound
      split at fine
      · cases fine
      · rename_i later
        simp only [Bool.or_eq_true, decide_eq_true_eq, not_or, Nat.not_lt] at inside
        simp only [Bool.or_eq_true, Bool.not_eq_true', not_or, Bool.not_eq_false] at sound
        exact ⟨Nat.not_lt.1 later, inside.1, inside.2, sound.1, sound.2⟩

/-- What the first edit of a batch leaves to the others. -/
theorem exists_of_performFrom_cons (sound : Text.isBoundary source done = true)
    (performed : performFrom source done (edit :: edits) = .ok text) :
    ∃ rest, performFrom source edit.stop edits = .ok rest ∧ Text.isBoundary source edit.stop = true ∧
      text = Text.slice source done edit.start ++ edit.text ++ rest ∧
      Text.slice source done (Text.size source) = Text.slice source done edit.start ++
        Text.slice source edit.start edit.stop ++ Text.slice source edit.stop (Text.size source) := by
  unfold performFrom at performed
  split at performed
  · cases performed
  · rename_i fine
    obtain ⟨order, wide, inside, starts, stops⟩ := of_refusal?_eq_none fine
    cases carried : performFrom source edit.stop edits with
    | error failure =>
        rw [carried] at performed
        cases performed
    | ok rest =>
        rw [carried] at performed
        cases performed
        refine ⟨rest, rfl, stops, rfl, ?_⟩
        rw [Text.slice_append sound starts stops order wide,
          Text.slice_append sound stops (Text.isBoundary_size source) (Nat.le_trans order wide) inside]

theorem performFrom_apart (performed : performFrom source done edits = .ok text) :
    (∀ edit ∈ edits, done ≤ edit.start) ∧ edits.Pairwise Apart := by
  induction edits generalizing done text with
  | nil => exact ⟨by simp, .nil⟩
  | cons edit edits ih =>
      unfold performFrom at performed
      split at performed
      · cases performed
      · rename_i fine
        obtain ⟨order, wide, _⟩ := of_refusal?_eq_none fine
        cases carried : performFrom source edit.stop edits with
        | error failure =>
            rw [carried] at performed
            cases performed
        | ok rest =>
            obtain ⟨later, apart⟩ := ih carried
            refine ⟨List.forall_mem_cons.2 ⟨order, fun other member => ?_⟩, List.pairwise_cons.2 ⟨?_, apart⟩⟩
            · exact order.trans (wide.trans (later other member))
            · exact fun other member => .inl (later other member)

/-- Edits that were carried out keep out of each other's way. -/
theorem perform_apart (performed : perform source edits = .ok text) : edits.Pairwise Apart :=
  (List.mergeSort_perm edits goesBefore).pairwise (performFrom_apart performed).2 fun together => together.symm

theorem apart_of_perform {first second : Edit} (performed : perform source edits = .ok text) (member : first ∈ edits)
    (listed : second ∈ edits) (differ : first ≠ second) : Apart first second :=
  have : Std.Symm Apart := ⟨fun _ _ together => together.symm⟩
  (perform_apart performed).forall member listed differ

theorem performFrom_gains (each : ∀ edit ∈ edits, Gains source edit) (sound : Text.isBoundary source done = true)
    (performed : performFrom source done edits = .ok text) :
    (ink (Text.slice source done (Text.size source))).length + edits.length ≤ (ink text).length := by
  induction edits generalizing done text with
  | nil =>
      cases performed
      exact Nat.le_refl _
  | cons edit edits ih =>
      obtain ⟨gains, each⟩ := List.forall_mem_cons.1 each
      obtain ⟨rest, carried, stops, rfl, whole⟩ := exists_of_performFrom_cons sound performed
      have later := ih each stops carried
      simp only [Gains] at gains
      rw [whole]
      simp only [Text.ink_append, List.length_append, List.length_cons]
      omega

/-- A batch of edits that gain changes the text. -/
theorem perform_ne_of_gains (each : ∀ edit ∈ edits, Gains source edit) (some : edits ≠ [])
    (performed : perform source edits = .ok text) : text ≠ source := by
  intro same
  have more := performFrom_gains (fun edit member => each edit (mem_inOrder.1 member)) (Text.isBoundary_zero source)
    performed
  have size : 0 < (inOrder edits).length := by
    rw [inOrder, List.length_mergeSort]
    exact List.length_pos_iff.2 some
  rw [Text.slice_whole, same] at more
  omega

/-- What is visible in the span of an edit is visible in its text as well. -/
def Retains (visible : Char → Bool) (source : String) (edit : Edit) : Prop :=
  ((Text.slice source edit.start edit.stop).toList.filter visible).Sublist (edit.text.toList.filter visible)

variable {visible : Char → Bool}

theorem retains_of_point (point : edit.start = edit.stop) : Retains visible source edit := by
  rw [Retains, point, Text.slice_self]
  exact List.nil_sublist _

theorem performFrom_retains (each : ∀ edit ∈ edits, Retains visible source edit)
    (sound : Text.isBoundary source done = true) (performed : performFrom source done edits = .ok text) :
    ((Text.slice source done (Text.size source)).toList.filter visible).Sublist (text.toList.filter visible) := by
  induction edits generalizing done text with
  | nil =>
      cases performed
      exact List.Sublist.refl _
  | cons edit edits ih =>
      obtain ⟨retains, each⟩ := List.forall_mem_cons.1 each
      obtain ⟨rest, carried, stops, rfl, whole⟩ := exists_of_performFrom_cons sound performed
      rw [whole]
      simp only [String.toList_append, List.filter_append]
      exact ((List.Sublist.refl _).append retains).append (ih each stops carried)

/-- A batch of edits that lose nothing loses nothing. -/
theorem perform_retains (each : ∀ edit ∈ edits, Retains visible source edit)
    (performed : perform source edits = .ok text) :
    (source.toList.filter visible).Sublist (text.toList.filter visible) := by
  have kept := performFrom_retains (fun edit member => each edit (mem_inOrder.1 member)) (Text.isBoundary_zero source)
    performed
  rwa [Text.slice_whole] at kept

theorem point_addToArguments (list : Go.Node) (index : Nat) (text : String) :
    (addToArguments list index text).start = (addToArguments list index text).stop := by
  unfold addToArguments
  split
  · rfl
  · rfl
  · rfl

theorem point_addParameter (list : Go.Node) (text : String) :
    (addParameter list text).start = (addParameter list text).stop := by
  unfold addParameter
  dsimp only
  split
  · rfl
  · rfl
  · rfl

/-! Edits that add something to see. -/

theorem gains_addToArguments {list : Go.Node} {index : Nat} (shows : Shows text) :
    Gains source (addToArguments list index text) := by
  unfold addToArguments
  split
  · exact gains_insertAt (shows.before _)
  · exact gains_insertAt (shows.after _)
  · exact gains_insertAt shows

theorem gains_addParameter {list : Go.Node} (shows : Shows text) : Gains source (addParameter list text) := by
  unfold addParameter
  dsimp only
  split
  · exact gains_insertAt (shows.before _)
  · exact gains_insertAt (shows.after _)
  · exact gains_insertAt shows

theorem gains_addAfter {statement : Go.Node} (shows : Shows text) : Gains source (addAfter source statement text) :=
  gains_insertAt (shows.after _)

theorem gains_addBefore {statement : Go.Node} (shows : Shows text) : Gains source (addBefore source statement text) := by
  unfold addBefore
  dsimp only
  split
  · exact gains_insertAt ((shows.after _).before _)
  · exact gains_insertAt ((shows.before _).before _)

theorem gains_addBeforeFirst {first : Go.Node} {line : String} (shows : Shows line) (more : List String) :
    Gains source (addBeforeFirst source first (line :: more)) := by
  unfold addBeforeFirst
  dsimp only
  have joined : Shows (String.join ((line :: more).map fun line =>
      Text.indentation source first.start ++ line ++ "\n")) := by
    rw [List.map_cons, String.join_cons]
    exact ((shows.after _).before _).before _
  split
  · exact gains_insertAt joined
  · refine gains_insertAt (Shows.before ?_ _)
    rw [Shows, Text.ink_trimStart]
    exact joined

theorem gains_addToEmpty {block : Go.Node} {line : String} (shows : Shows line) (more : List String) :
    Gains source (addToEmpty source block (line :: more)) := by
  unfold addToEmpty
  dsimp only
  have joined : Shows (String.join ((line :: more).map fun line =>
      "\n" ++ Text.indentation source block.start ++ "\t" ++ line)) := by
    rw [List.map_cons, String.join_cons]
    exact (shows.after _).before _
  split
  · rename_i blank
    change (ink (Text.slice source _ _)).length < (ink _).length
    rw [Text.ink_of_isAllBlank blank]
    exact (joined.before _).before _
  · exact gains_insertAt joined

theorem gains_addAtStart {block : Go.Node} {line : String} (shows : Shows line) (more : List String) :
    Gains source (addAtStart source block (line :: more)) := by
  unfold addAtStart
  split
  · exact gains_addBeforeFirst shows more
  · exact gains_addToEmpty shows more

/-- A name in the place of a shorter one. -/
theorem gains_replaceNode {node : Go.Node} (longer : (ink (node.text source)).length < (ink text).length) :
    Gains source (replaceNode node text) := longer

end Edit
end TraceWeave
