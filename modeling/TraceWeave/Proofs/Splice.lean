import TraceWeave.Proofs.Ink
import TraceWeave.Proofs.Sorted

/-!
What a batch of edits does. It is carried out exactly if every edit has a span of the text and no two get
into each other's way, and then it does what its edits do one by one, from the last to the first, each put
into the text by itself. Where that is so, the order of the batch matters for insertions at one offset only.
-/
namespace TraceWeave

namespace Edit

variable {source text : String} {done start stop : Nat} {a b edit : Edit} {edits edits' : List Edit}

/-! The order of a batch. -/

/-- By start, insertions before replacements, then by position in the batch. -/
def comesFirst (a b : Edit × Nat) : Bool :=
  decide (a.1.start < b.1.start) || (a.1.start == b.1.start &&
    ((a.1.isInsertion && !b.1.isInsertion) || (a.1.isInsertion == b.1.isInsertion && decide (a.2 ≤ b.2))))

/-- A batch in the order of start, kind and position. -/
def ranked (edits : List Edit) : List Edit := (edits.zipIdx.mergeSort comesFirst).map (·.1)

theorem comesFirst_eq : comesFirst = List.zipIdxLE goesBefore := by
  funext ⟨a, i⟩ ⟨b, j⟩
  rw [Bool.eq_iff_iff]
  simp only [comesFirst, List.zipIdxLE, goesBefore]
  grind

theorem ranked_eq (edits : List Edit) : ranked edits = inOrder edits := by
  rw [ranked, comesFirst_eq, inOrder, List.mergeSort_zipIdx]

/-! Which batches are carried out. -/

/-- Two edits replace the same byte. -/
def ShareByte (a b : Edit) : Prop := ∃ byte, (a.start ≤ byte ∧ byte < a.stop) ∧ (b.start ≤ byte ∧ byte < b.stop)

/-- An insertion lies strictly inside of what another edit replaces. -/
def Splits (a b : Edit) : Prop := a.isInsertion = true ∧ b.start < a.start ∧ a.start < b.stop

/-- Two edits get into each other's way. -/
def Conflicts (a b : Edit) : Prop := ShareByte a b ∨ Splits a b ∨ Splits b a

/-- An edit of a span of the text. -/
structure Fits (source : String) (edit : Edit) : Prop where
  order : edit.start ≤ edit.stop
  inside : edit.stop ≤ Text.size source
  starts : Text.isBoundary source edit.start = true
  stops : Text.isBoundary source edit.stop = true

/-- Every edit has its span, and no two are in conflict. -/
structure Compatible (source : String) (edits : List Edit) : Prop where
  each : ∀ edit ∈ edits, Fits source edit
  free : edits.Pairwise fun a b => ¬ Conflicts a b

theorem Fits.spans (fits : Fits source edit) : Spans source edit := ⟨fits.order, fits.starts, fits.stops⟩

theorem conflicts_symm (conflicts : Conflicts a b) : Conflicts b a := by
  rcases conflicts with ⟨byte, first, second⟩ | splits | splits
  · exact .inl ⟨byte, second, first⟩
  · exact .inr (.inr splits)
  · exact .inr (.inl splits)

theorem apart_iff (first : a.start ≤ a.stop) (second : b.start ≤ b.stop) : Apart a b ↔ ¬ Conflicts a b := by
  constructor
  · rintro apart (⟨byte, here, there⟩ | ⟨point, before, after⟩ | ⟨point, before, after⟩)
    · unfold Apart at apart
      omega
    · have point : a.start = a.stop := beq_iff_eq.1 point
      unfold Apart at apart
      omega
    · have point : b.start = b.stop := beq_iff_eq.1 point
      unfold Apart at apart
      omega
  · intro free
    by_contra contrary
    obtain ⟨below, above⟩ : b.start < a.stop ∧ a.start < b.stop := by
      unfold Apart at contrary
      omega
    by_cases point : a.start = a.stop
    · exact free (.inr (.inl ⟨beq_iff_eq.2 point, by omega, by omega⟩))
    · by_cases point' : b.start = b.stop
      · exact free (.inr (.inr ⟨beq_iff_eq.2 point', by omega, by omega⟩))
      · -- both spans hold the byte at the later one of their starts
        exact free (.inl ⟨max a.start b.start, by omega, by omega⟩)

theorem performFrom_fits (performed : performFrom source done edits = .ok text) : ∀ edit ∈ edits, Fits source edit := by
  induction edits generalizing done text with
  | nil => simp
  | cons edit edits ih =>
      unfold performFrom at performed
      split at performed
      · cases performed
      · rename_i fine
        obtain ⟨_, order, inside, starts, stops⟩ := of_refusal?_eq_none fine
        cases carried : performFrom source edit.stop edits with
        | error failure =>
            rw [carried] at performed
            cases performed
        | ok rest => exact List.forall_mem_cons.2 ⟨⟨order, inside, starts, stops⟩, ih carried⟩

/-- A batch is carried out exactly if its edits are compatible. -/
theorem exists_perform_iff : (∃ text, perform source edits = .ok text) ↔ Compatible source edits := by
  constructor
  · rintro ⟨text, performed⟩
    have each : ∀ edit ∈ edits, Fits source edit := fun edit member =>
      performFrom_fits performed edit (mem_inOrder.2 member)
    refine ⟨each, (perform_apart performed).imp_of_mem fun {a b} member member' apart => ?_⟩
    exact (apart_iff (each a member).order (each b member').order).1 apart
  · rintro ⟨each, free⟩
    refine perform_of_apart (fun edit member => (each edit member).spans) (free.imp_of_mem fun {a b} member member' => ?_)
    exact (apart_iff (each a member).order (each b member').order).2

/-! One edit at a time. -/

/-- The text with one edit carried out. -/
def splice (edit : Edit) (text : String) : String :=
  Text.slice text 0 edit.start ++ edit.text ++ Text.slice text edit.stop (Text.size text)

/-- What stands behind the span of an edit does not matter to it. -/
theorem splice_append (fits : Fits source edit) (rest : String) :
    splice edit (Text.slice source 0 edit.stop ++ rest) = Text.slice source 0 edit.start ++ edit.text ++ rest := by
  obtain ⟨before, after, cut⟩ := Text.isBoundary_iff.1 fits.starts
  obtain ⟨before', after', cut'⟩ := Text.isBoundary_iff.1 fits.stops
  obtain ⟨between, rfl, rfl⟩ := cut.exists_between cut' fits.order
  have first : Text.Cut source 0 [] (before ++ (between ++ after')) := cut.whole ▸ Text.cut_start source
  have front : Text.slice source 0 edit.stop = String.ofList (before ++ between) :=
    Text.Cut.slice_eq (by rwa [List.append_assoc]) cut'
  -- the same cuts in the text that has something else behind them
  generalize whole : Text.slice source 0 edit.stop ++ rest = text
  have characters : text.toList = before ++ (between ++ rest.toList) := by
    rw [← whole, front, String.toList_append, String.toList_ofList, List.append_assoc]
  have starts : Text.Cut text edit.start before (between ++ rest.toList) := ⟨characters, cut.size⟩
  have stops : Text.Cut text edit.stop (before ++ between) rest.toList :=
    ⟨characters.trans (List.append_assoc _ _ _).symm, cut'.size⟩
  have ends : Text.Cut text (Text.size text) (before ++ between ++ rest.toList) [] :=
    ⟨by rw [characters, List.append_nil, List.append_assoc], by rw [Text.size_eq, characters, List.append_assoc]⟩
  have begins : Text.Cut text 0 [] (before ++ (between ++ rest.toList)) := ⟨characters, rfl⟩
  have tail : Text.Cut text edit.stop (before ++ between) (rest.toList ++ []) := by rwa [List.append_nil]
  rw [splice, begins.slice_eq starts, first.slice_eq cut, tail.slice_eq ends, String.ofList_toList]

/-- Edits in order, carried out from the last to the first. -/
theorem foldr_splice (sound : Text.isBoundary source done = true) (performed : performFrom source done edits = .ok text) :
    edits.foldr splice source = Text.slice source 0 done ++ text := by
  induction edits generalizing done text with
  | nil =>
      cases performed
      rw [Text.slice_append (Text.isBoundary_zero source) sound (Text.isBoundary_size source) (Nat.zero_le _)
        (Text.le_size_of_isBoundary sound), Text.slice_whole, List.foldr_nil]
  | cons edit edits ih =>
      have fits := performFrom_fits performed edit List.mem_cons_self
      have reached := (performFrom_apart performed).1 edit List.mem_cons_self
      obtain ⟨rest, carried, stops, rfl, _⟩ := exists_of_performFrom_cons sound performed
      have front := Text.slice_append (Text.isBoundary_zero source) sound fits.starts (Nat.zero_le _) reached
      rw [List.foldr_cons, ih stops carried, splice_append fits, ← front]
      simp only [String.append_assoc]

/-! What is outside of the spans. -/

/-- A stretch of a text that no edit of a batch reaches into. -/
structure Spared (source : String) (edits : List Edit) (start stop : Nat) : Prop where
  wide : start < stop
  starts : Text.isBoundary source start = true
  stops : Text.isBoundary source stop = true
  outside : ∀ edit ∈ edits, edit.stop ≤ start ∨ stop ≤ edit.start

/-- Edits that end before an offset or at it. -/
def endingBy (edits : List Edit) (offset : Nat) : List Edit := edits.filter fun edit => decide (edit.stop ≤ offset)

/-- Every stretch outside of the spans is there, byte for byte, moved by what the edits before it add and take. -/
def Keeps (source : String) (edits : List Edit) (text : String) : Prop :=
  ∀ start stop, Spared source edits start stop → ∃ before after,
    text = before ++ Text.slice source start stop ++ after ∧
      Text.size before + total (fun edit => edit.stop - edit.start) (endingBy edits start) =
        start + total (fun edit => Text.size edit.text) (endingBy edits start)

theorem endingBy_cons_of_pos (ends : edit.stop ≤ start) : endingBy (edit :: edits) start = edit :: endingBy edits start :=
  List.filter_cons_of_pos (by simpa using ends)

theorem endingBy_eq_nil (later : ∀ edit ∈ edits, start < edit.stop) : endingBy edits start = [] :=
  List.filter_eq_nil_iff.2 fun edit member => by simpa using later edit member

theorem performFrom_keeps (sound : Text.isBoundary source done = true) (reached : done ≤ start)
    (spared : Spared source edits start stop) (performed : performFrom source done edits = .ok text) :
    ∃ before after, text = before ++ Text.slice source start stop ++ after ∧
      done + Text.size before + total (fun edit => edit.stop - edit.start) (endingBy edits start) =
        start + total (fun edit => Text.size edit.text) (endingBy edits start) := by
  obtain ⟨wide, starts, stops, outside⟩ := spared
  induction edits generalizing done text with
  | nil =>
      cases performed
      have size := Text.le_size_of_isBoundary stops
      refine ⟨Text.slice source done start, Text.slice source stop (Text.size source), ?_, ?_⟩
      · rw [Text.slice_append sound starts stops reached (Nat.le_of_lt wide),
          Text.slice_append sound stops (Text.isBoundary_size source) (by omega) size]
      · have length := Text.size_slice sound starts reached
        simp only [endingBy, List.filter_nil, total_nil]
        omega
  | cons edit edits ih =>
      obtain ⟨here, outside⟩ := List.forall_mem_cons.1 outside
      have fits := performFrom_fits performed edit List.mem_cons_self
      have begun := (performFrom_apart performed).1 edit List.mem_cons_self
      obtain ⟨rest, carried, _, rfl, _⟩ := exists_of_performFrom_cons sound performed
      rcases here with earlier | later
      · obtain ⟨before, after, rfl, place⟩ := ih fits.stops earlier carried outside
        refine ⟨Text.slice source done edit.start ++ edit.text ++ before, after, ?_, ?_⟩
        · simp only [String.append_assoc]
        · have length := Text.size_slice sound fits.starts begun
          have order := fits.order
          rw [endingBy_cons_of_pos earlier, Text.size_append, Text.size_append, total_cons, total_cons]
          omega
      · refine ⟨Text.slice source done start, Text.slice source stop edit.start ++ edit.text ++ rest, ?_, ?_⟩
        · rw [← Text.slice_append sound stops fits.starts (by omega) later,
            ← Text.slice_append sound starts stops reached (Nat.le_of_lt wide)]
          simp only [String.append_assoc]
        · -- whatever comes after this edit ends behind the stretch
          have none : endingBy (edit :: edits) start = [] := by
            refine endingBy_eq_nil (List.forall_mem_cons.2 ⟨?_, fun other member => ?_⟩)
            · have order := fits.order
              omega
            · have follows := (performFrom_apart carried).1 other member
              have order := fits.order
              have order' := (performFrom_fits carried other member).order
              omega
          have length := Text.size_slice sound starts reached
          rw [none, total_nil, total_nil]
          omega

/-- What a batch does not reach into stays. -/
theorem perform_keeps (performed : perform source edits = .ok text) : Keeps source edits text := by
  rintro start stop ⟨wide, starts, stops, outside⟩
  have spared : Spared source (inOrder edits) start stop :=
    ⟨wide, starts, stops, fun edit member => outside edit (mem_inOrder.1 member)⟩
  obtain ⟨before, after, same, place⟩ :=
    performFrom_keeps (Text.isBoundary_zero source) (Nat.zero_le _) spared performed
  have early : (endingBy (inOrder edits) start).Perm (endingBy edits start) :=
    (List.mergeSort_perm edits goesBefore).filter _
  rw [total_perm early, total_perm early, Nat.zero_add] at place
  exact ⟨before, after, same, place⟩

/-- A batch is carried out exactly if its edits are compatible, with the result of its edits done one by
one, from the last to the first; and whatever is outside of their spans stays. -/
theorem perform_eq_ok_iff (source text : String) (edits : List Edit) :
    (perform source edits = .ok text ↔ Compatible source edits ∧ text = (ranked edits).foldr splice source) ∧
      (perform source edits = .ok text → Keeps source edits text) := by
  have result : ∀ text, perform source edits = .ok text → text = (ranked edits).foldr splice source := by
    intro text performed
    have whole := foldr_splice (Text.isBoundary_zero source) performed
    rw [Text.slice_self, String.empty_append] at whole
    rw [ranked_eq]
    exact whole.symm
  refine ⟨⟨fun performed => ⟨exists_perform_iff.1 ⟨text, performed⟩, result text performed⟩, ?_⟩, perform_keeps⟩
  rintro ⟨compatible, rfl⟩
  obtain ⟨text, performed⟩ := exists_perform_iff.2 compatible
  rw [← result text performed]
  exact performed

/-- Two insertions before a character of two bytes that is replaced, and one behind it. -/
def accents : List Edit := [.insertAt 3 "<", .insertAt 3 ">", ⟨3, 5, "n"⟩, .insertAt 5 "!"]

theorem perform_eq_ok_iff_accents :
    perform "f(a\u00f1b)" accents = .ok "f(a<>n!b)" ∧
      (Compatible "f(a\u00f1b)" accents ∧ "f(a<>n!b)" = (ranked accents).foldr splice "f(a\u00f1b)") ∧
      Keeps "f(a\u00f1b)" accents "f(a<>n!b)" := by
  have order : inOrder accents = accents := List.mergeSort_of_pairwise (by decide)
  have performed : perform "f(a\u00f1b)" accents = .ok "f(a<>n!b)" := by
    rw [perform, order]
    decide +kernel
  obtain ⟨exact, keeps⟩ := perform_eq_ok_iff "f(a\u00f1b)" "f(a<>n!b)" accents
  exact ⟨performed, exact.1 performed, keeps performed⟩

/-! Any order. -/

/-- A batch in another order, in which insertions at one offset follow each other as before. -/
structure Rearranges (edits edits' : List Edit) : Prop where
  perm : edits.Perm edits'
  insertions : ∀ offset, edits.filter (fun edit => edit.isInsertion && edit.start == offset) =
    edits'.filter fun edit => edit.isInsertion && edit.start == offset

theorem Compatible.perm (compatible : Compatible source edits) (perm : edits.Perm edits') :
    Compatible source edits' :=
  ⟨fun edit member => compatible.each edit (perm.mem_iff.2 member),
    perm.pairwise compatible.free fun free conflicts => free (conflicts_symm conflicts)⟩

theorem tied_goesBefore : tied goesBefore a b = (b.start == a.start && b.isInsertion == a.isInsertion) := by
  rw [Bool.eq_iff_iff]
  simp only [tied, goesBefore]
  grind

/-- Of two replacements in a compatible batch one begins later. -/
theorem Compatible.sole (compatible : Compatible source edits) (replaces : a.isInsertion = false) :
    (edits.filter (tied goesBefore a)).length ≤ 1 := by
  rcases found : edits.filter (tied goesBefore a) with _ | ⟨first, _ | ⟨second, rest⟩⟩
  · simp
  · simp
  · exfalso
    have free : ¬ Conflicts first second := by
      have free := compatible.free.filter (tied goesBefore a)
      rw [found] at free
      exact (List.pairwise_cons.1 free).1 second List.mem_cons_self
    have wide : ∀ edit ∈ edits.filter (tied goesBefore a), edit.start = a.start ∧ a.start < edit.stop := by
      intro edit member
      obtain ⟨listed, ties⟩ := List.mem_filter.1 member
      rw [tied_goesBefore, Bool.and_eq_true, beq_iff_eq, beq_iff_eq, replaces] at ties
      have order := (compatible.each edit listed).order
      have apart : edit.start ≠ edit.stop := beq_eq_false_iff_ne.1 ties.2
      exact ⟨ties.1, by omega⟩
    have here := wide first (by simp [found])
    have there := wide second (by simp [found])
    exact free (.inl ⟨a.start, by omega, by omega⟩)

/-- A compatible batch has one order of execution. -/
theorem Compatible.inOrder_eq (compatible : Compatible source edits) (rearranges : Rearranges edits edits') :
    inOrder edits = inOrder edits' := by
  refine eq_of_tied goesBefore_total (inOrder_pairwise edits) (inOrder_pairwise edits') fun edit => ?_
  rw [inOrder, inOrder, filter_tied_mergeSort goesBefore_trans goesBefore_total,
    filter_tied_mergeSort goesBefore_trans goesBefore_total]
  cases kind : edit.isInsertion with
  | true =>
      have class' : tied goesBefore edit = fun other => other.isInsertion && other.start == edit.start := by
        funext other
        rw [tied_goesBefore, kind, beq_true, Bool.and_comm]
      rw [class']
      exact rearranges.insertions edit.start
  | false =>
      have perm := rearranges.perm.filter (tied goesBefore edit)
      have short := compatible.sole kind
      rcases found : edits.filter (tied goesBefore edit) with _ | ⟨first, _ | ⟨second, rest⟩⟩
      · rw [found] at perm
        exact perm.nil_eq
      · rw [found] at perm
        exact List.singleton_perm.1 perm
      · rw [found, List.length_cons, List.length_cons] at short
        omega

/-- A batch in another order fails as well, or has the same result, as long as insertions at one offset
keep their order. -/
theorem perform_rearranged (source : String) (rearranges : Rearranges edits edits') :
    (∃ text, perform source edits = .ok text ∧ perform source edits' = .ok text) ∨
      (∃ error, perform source edits = .error error) ∧ ∃ error, perform source edits' = .error error := by
  by_cases compatible : Compatible source edits
  · obtain ⟨text, performed⟩ := exists_perform_iff.2 compatible
    refine .inl ⟨text, performed, ?_⟩
    rw [perform, ← compatible.inOrder_eq rearranges]
    exact performed
  · have fails : ∀ {edits}, ¬ Compatible source edits → ∃ error, perform source edits = .error error := by
      intro edits refused
      cases performed : perform source edits with
      | error error => exact ⟨error, rfl⟩
      | ok text => exact absurd (exists_perform_iff.1 ⟨text, performed⟩) refused
    exact .inr ⟨fails compatible, fails fun contrary => compatible (contrary.perm rearranges.perm.symm)⟩

theorem perform_rearranged_accents :
    Rearranges accents [.insertAt 5 "!", ⟨3, 5, "n"⟩, .insertAt 3 "<", .insertAt 3 ">"] ∧
      ((∃ text, perform "f(a\u00f1b)" accents = .ok text ∧
          perform "f(a\u00f1b)" [.insertAt 5 "!", ⟨3, 5, "n"⟩, .insertAt 3 "<", .insertAt 3 ">"] = .ok text) ∨
        (∃ error, perform "f(a\u00f1b)" accents = .error error) ∧
          ∃ error, perform "f(a\u00f1b)" [.insertAt 5 "!", ⟨3, 5, "n"⟩, .insertAt 3 "<", .insertAt 3 ">"] = .error error) := by
  have rearranges : Rearranges accents [.insertAt 5 "!", ⟨3, 5, "n"⟩, .insertAt 3 "<", .insertAt 3 ">"] := by
    refine ⟨by decide, fun offset => ?_⟩
    simp [accents, insertAt, isInsertion, List.filter_cons]
    grind
  exact ⟨rearranges, perform_rearranged "f(a\u00f1b)" rearranges⟩

end Edit
end TraceWeave
