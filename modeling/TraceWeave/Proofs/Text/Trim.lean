import TraceWeave.Text.Blank
import TraceWeave.Text.Search

/-!
Texts that lost their ends. What is left is told by the text it comes from: by what stood before and behind it,
and by where the cutting stops.
-/
namespace TraceWeave.Text

variable {test : Char → Bool} {part text rest core : String}

/-- The characters of a text are checked one by one, not all characters there are. -/
theorem forall_mem_of_all {holds : Char → Prop} [DecidablePred holds] {cs : List Char}
    (passes : cs.all (fun c => decide (holds c)) = true) : ∀ c ∈ cs, holds c :=
  fun c member => of_decide_eq_true (List.all_eq_true.1 passes c member)

theorem after?_append (part rest : String) : after? part (part ++ rest) = some rest := by
  simp [after?, beginsWith]

theorem eq_of_after? (found : after? part text = some rest) : text = part ++ rest := by
  unfold after? at found
  split at found
  · rename_i starts
    obtain ⟨more, split⟩ := List.isPrefixOf_iff_prefix.1 starts
    obtain rfl := Option.some.inj found
    rw [← String.toList_inj, String.toList_append, String.toList_ofList, ← split, List.drop_left]
  · cases found

theorem eq_of_before? (found : before? part text = some rest) : text = rest ++ part := by
  unfold before? at found
  split at found
  · rename_i ends
    obtain ⟨more, split⟩ := List.isSuffixOf_iff_suffix.1 ends
    obtain rfl := Option.some.inj found
    rw [← String.toList_inj, String.toList_append, String.toList_ofList, ← split]
    simp
  · cases found

theorem before?_append (rest part : String) : before? part (rest ++ part) = some rest := by
  simp [before?, finishesWith]

theorem before?_eq_none (other : ∀ rest, text ≠ rest ++ part) : before? part text = none := by
  cases found : before? part text with
  | none => rfl
  | some rest => exact absurd (eq_of_before? found) (other rest)

theorem finishesWith_iff : finishesWith text part = true ↔ ∃ stem, text = stem ++ part := by
  rw [finishesWith, List.isSuffixOf_iff_suffix]
  constructor
  · rintro ⟨stem, split⟩
    exact ⟨String.ofList stem, by rw [← String.toList_inj, ← split]; simp⟩
  · rintro ⟨stem, rfl⟩
    exact ⟨stem.toList, String.toList_append.symm⟩

theorem dropWhile_eq_iff {α : Type} {test : α → Bool} {items rest : List α} :
    items.dropWhile test = rest ↔
      ∃ front, items = front ++ rest ∧ (∀ item ∈ front, test item = true) ∧ ∀ item ∈ rest.head?, test item = false := by
  constructor
  · rintro rfl
    refine ⟨items.takeWhile test, List.takeWhile_append_dropWhile.symm, fun item member => ?_, fun item member => ?_⟩
    · exact List.all_eq_true.1 List.all_takeWhile item member
    · have stops := List.head?_dropWhile_not test items
      rw [Option.mem_def.1 member] at stops
      simpa using stops
  · rintro ⟨front, rfl, passes, stops⟩
    rw [List.dropWhile_append_of_pos passes]
    cases rest with
    | nil => rfl
    | cons item rest => exact List.dropWhile_cons_of_neg (by simp [stops item rfl])

theorem dropStart_eq_iff :
    dropStart test text = rest ↔ ∃ front : List Char, text.toList = front ++ rest.toList ∧
      (∀ c ∈ front, test c = true) ∧ ∀ c ∈ rest.toList.head?, test c = false := by
  rw [dropStart, ← dropWhile_eq_iff, ← String.toList_inj, String.toList_ofList]

theorem dropEnd_eq_iff :
    dropEnd test text = rest ↔ ∃ back : List Char, text.toList = rest.toList ++ back ∧
      (∀ c ∈ back, test c = true) ∧ ∀ c ∈ rest.toList.getLast?, test c = false := by
  rw [dropEnd, ← String.toList_inj, String.toList_ofList, List.reverse_eq_iff, dropWhile_eq_iff, List.head?_reverse]
  constructor
  · rintro ⟨back, split, passes, stops⟩
    exact ⟨back.reverse, by rw [← List.reverse_inj, split]; simp, by simpa using passes, stops⟩
  · rintro ⟨back, split, passes, stops⟩
    exact ⟨back.reverse, by rw [split]; simp, by simpa using passes, stops⟩

/-- A character that fails the test stays. -/
theorem mem_dropEnd {c : Char} (member : c ∈ text.toList) (fails : test c = false) : c ∈ (dropEnd test text).toList := by
  obtain ⟨gone, split, passes, _⟩ := dropEnd_eq_iff.1 (rfl : dropEnd test text = _)
  rw [split] at member
  refine (List.mem_append.1 member).resolve_right fun cut => ?_
  exact absurd (passes c cut) (by simp [fails])

/-- What is cut off stands behind the last character that stays. -/
theorem dropEnd_append {front back : String} (stays : ∃ c ∈ back.toList, test c = false) :
    dropEnd test (front ++ back) = front ++ dropEnd test back := by
  obtain ⟨gone, split, passes, stops⟩ := dropEnd_eq_iff.1 (rfl : dropEnd test back = _)
  refine dropEnd_eq_iff.2 ⟨gone, ?_, passes, ?_⟩
  · rw [String.toList_append, String.toList_append, split, List.append_assoc]
  · intro c member
    rw [String.toList_append, List.getLast?_append] at member
    cases last : (dropEnd test back).toList.getLast? with
    | some d =>
        rw [last] at member
        exact stops c (last.trans member)
    | none =>
        -- nothing would be left, so that all of it passes the test
        obtain ⟨d, listed, fails⟩ := stays
        rw [split, List.getLast?_eq_none_iff.1 last] at listed
        exact absurd (passes d listed) (by simp [fails])

/-- A text with white space around it. -/
theorem trim_eq (front back : List Char) (split : text.toList = front ++ core.toList ++ back)
    (before : ∀ c ∈ front, isBlank c = true) (behind : ∀ c ∈ back, isBlank c = true)
    (first : ∀ c ∈ core.toList.head?, isBlank c = false) (last : ∀ c ∈ core.toList.getLast?, isBlank c = false) :
    trim text = core := by
  rw [trim, dropEnd_eq_iff]
  cases filled : core.toList with
  | nil =>
      refine ⟨[], ?_, by simp, by simp⟩
      have gone : dropStart isBlank text = "" := by
        refine dropStart_eq_iff.2 ⟨front ++ back, ?_, ?_, by simp⟩
        · simpa [filled] using split
        · intro c member
          exact (List.mem_append.1 member).elim (before c) (behind c)
      rw [gone]
      rfl
  | cons c cs =>
      refine ⟨back, ?_, behind, filled ▸ last⟩
      have kept : dropStart isBlank text = String.ofList (core.toList ++ back) := by
        refine dropStart_eq_iff.2 ⟨front, ?_, before, ?_⟩
        · rw [split, String.toList_ofList, List.append_assoc]
        · intro d member
          rw [String.toList_ofList, filled] at member
          exact first d (by rwa [filled])
      rw [kept, String.toList_ofList, filled]

/-- What trimming leaves, between the white space that is gone. -/
theorem exists_trim (text : String) :
    ∃ front back : List Char, text.toList = front ++ (trim text).toList ++ back ∧
      (∀ c ∈ front, isBlank c = true) ∧ (∀ c ∈ back, isBlank c = true) ∧
      (∀ c ∈ (trim text).toList.head?, isBlank c = false) ∧ ∀ c ∈ (trim text).toList.getLast?, isBlank c = false := by
  obtain ⟨front, split, before, first⟩ := dropStart_eq_iff.1 (rfl : dropStart isBlank text = _)
  obtain ⟨back, split', behind, last⟩ := dropEnd_eq_iff.1 (rfl : dropEnd isBlank (dropStart isBlank text) = _)
  refine ⟨front, back, ?_, before, behind, ?_, last⟩
  · rw [split, split', List.append_assoc]
    rfl
  · intro c member
    refine first c ?_
    rw [split', List.head?_append]
    exact congrArg (·.or back.head?) member

theorem trim_append_blank {back : List Char} (behind : ∀ c ∈ back, isBlank c = true) :
    trim (text ++ String.ofList back) = trim text := by
  obtain ⟨front, back', split, before, behind', first, last⟩ := exists_trim text
  refine trim_eq front (back' ++ back) ?_ before ?_ first last
  · rw [String.toList_append, String.toList_ofList]
    exact (congrArg (· ++ back) split).trans (List.append_assoc _ _ _)
  · intro c member
    exact (List.mem_append.1 member).elim (behind' c) (behind c)

theorem dropRepeatsFrom_eq_iff {part cs rest : List Char} (some : part ≠ []) {rounds : Nat} (enough : cs.length ≤ rounds) :
    dropRepeatsFrom part rounds cs = rest ↔
      ∃ count, cs = (List.replicate count part).flatten ++ rest ∧ ¬ part <+: rest := by
  have filled : 0 < part.length := List.length_pos_iff.2 some
  induction rounds generalizing cs with
  | zero =>
      obtain rfl : cs = [] := List.length_eq_zero_iff.1 (Nat.le_zero.1 enough)
      constructor
      · rintro rfl
        exact ⟨0, rfl, by simpa [dropRepeatsFrom] using some⟩
      · rintro ⟨count, split, _⟩
        exact (List.append_eq_nil_iff.1 split.symm).2.symm
  | succ rounds ih =>
      rw [dropRepeatsFrom]
      by_cases starts : part <+: cs
      · obtain ⟨cs, rfl⟩ := starts
        have shorter : cs.length ≤ rounds := by
          rw [List.length_append] at enough
          omega
        rw [if_pos (by simp [some]), List.drop_left]
        refine (ih shorter).trans ?_
        constructor
        · rintro ⟨count, rfl, stops⟩
          exact ⟨count + 1, by simp [List.replicate_succ], stops⟩
        · rintro ⟨count, split, stops⟩
          cases count with
          | zero => exact absurd ⟨cs, by simpa using split⟩ stops
          | succ count => exact ⟨count, by simpa [List.replicate_succ] using split, stops⟩
      · rw [if_neg (by simp [starts])]
        constructor
        · rintro rfl
          exact ⟨0, rfl, starts⟩
        · rintro ⟨count, split, _⟩
          cases count with
          | zero => simpa using split
          | succ count => exact absurd ⟨_, by rw [split, List.replicate_succ, List.flatten_cons, List.append_assoc]⟩ starts

theorem dropRepeats_eq_iff (some : part ≠ "") :
    dropRepeats part text = rest ↔
      ∃ count, text.toList = (List.replicate count part.toList).flatten ++ rest.toList ∧ ¬ part.toList <+: rest.toList := by
  rw [dropRepeats, ← String.toList_inj, String.toList_ofList]
  exact dropRepeatsFrom_eq_iff (by simpa using some) (Nat.le_refl _)

end TraceWeave.Text
