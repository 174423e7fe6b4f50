import TraceWeave.Proofs.Hunks

/-!
Where a difference begins. An insertion that has been moved may no longer say where it stands in the old text. In
front of the first kept lines this cannot happen to a change without deletions: an insertion that has come there
over other lines goes back over them.
-/
namespace TraceWeave.LineDiff

variable {pair : Pair} {p q r : Point} {step previous next : Step} {before after front rest steps : List Step}

/-- What stands before the first kept lines. -/
def opening (steps : List Step) : List Step := steps.takeWhile fun step => step.action ≠ .keep

/-- Whether something is deleted before the first kept lines. -/
def Deletes (steps : List Step) : Prop := ∃ step ∈ opening steps, step.action = .delete

/-- Before the first kept lines something is deleted, or everything is said to stand at the start. -/
def Opens (steps : List Step) : Prop := Deletes steps ∨ ∀ step ∈ opening steps, step.old = 0

/-- No step is over no lines. -/
def Filled (steps : List Step) : Prop := ∀ step ∈ steps, step.count ≠ 0

/-! The start of a script. -/

theorem opening_keep (is : step.action = .keep) (rest : List Step) : opening (step :: rest) = [] := by
  simp [opening, is]

theorem opening_change (isnt : step.action ≠ .keep) (rest : List Step) : opening (step :: rest) = step :: opening rest := by
  simp [opening, isnt]

theorem deletes_cons (is : step.action = .delete) (rest : List Step) : Deletes (step :: rest) := by
  refine ⟨step, ?_, is⟩
  rw [opening_change (by rw [is]; decide)]
  exact List.mem_cons_self

theorem opening_append_of_changes (changes : ∀ other ∈ front, other.action ≠ .keep) (rest : List Step) :
    opening (front ++ rest) = front ++ opening rest := by
  induction front with
  | nil => rfl
  | cons first front ih =>
      obtain ⟨here, later⟩ := List.forall_mem_cons.1 changes
      rw [List.cons_append, opening_change here, ih later, List.cons_append]

theorem opening_append_of_keep (keeps : ¬ ∀ other ∈ front, other.action ≠ .keep) (rest : List Step) :
    opening (front ++ rest) = opening front := by
  induction front with
  | nil => exact absurd (fun _ listed => absurd listed List.not_mem_nil) keeps
  | cons first front ih =>
      rw [List.cons_append]
      by_cases is : first.action = .keep
      · rw [opening_keep is, opening_keep is]
      · rw [opening_change is, opening_change is, ih fun changes => keeps (List.forall_mem_cons.2 ⟨is, changes⟩)]

/-- Nothing counts from the first kept lines on. -/
theorem opening_append_keep (is : step.action = .keep) (front rest : List Step) :
    opening (front ++ step :: rest) = opening front := by
  by_cases changes : ∀ other ∈ front, other.action ≠ .keep
  · have whole := opening_append_of_changes changes []
    rw [opening_append_of_changes changes, opening_keep is, List.append_nil]
    rw [List.append_nil] at whole
    rw [whole, opening, List.takeWhile_nil, List.append_nil]
  · exact opening_append_of_keep changes _

theorem opens_append_keep (is : step.action = .keep) : Opens (front ++ step :: rest) ↔ Opens front := by
  rw [Opens, Opens, Deletes, Deletes, opening_append_keep is]

/-- With a deletion in it, a script begins well unless it does before that. -/
theorem opens_append_delete (is : step.action = .delete) :
    Opens (front ++ step :: rest) ↔ (∀ other ∈ front, other.action ≠ .keep) ∨ Opens front := by
  by_cases changes : ∀ other ∈ front, other.action ≠ .keep
  · refine iff_of_true (.inl ⟨step, ?_, is⟩) (.inl changes)
    rw [opening_append_of_changes changes, opening_change (by rw [is]; decide)]
    exact List.mem_append_right _ List.mem_cons_self
  · rw [or_iff_right changes, Opens, Opens, Deletes, Deletes, opening_append_of_keep changes]

theorem opens_append (changes : step.action ≠ .keep) (opens : (∀ other ∈ front, other.action ≠ .keep) ∨ Opens front) :
    (∀ other ∈ front ++ [step], other.action ≠ .keep) ∨ Opens (front ++ [step]) := by
  by_cases all : ∀ other ∈ front, other.action ≠ .keep
  · exact .inl (List.forall_mem_append.2 ⟨all, List.forall_mem_singleton.2 changes⟩)
  · rw [Opens, Deletes, opening_append_of_keep all]
    exact .inr (opens.resolve_left all)

theorem opens_of_append
    (opens : (∀ other ∈ front ++ [step], other.action ≠ .keep) ∨ Opens (front ++ [step])) :
    (∀ other ∈ front, other.action ≠ .keep) ∨ Opens front := by
  by_cases all : ∀ other ∈ front, other.action ≠ .keep
  · exact .inl all
  · rw [Opens, Deletes, opening_append_of_keep all] at opens
    exact .inr (opens.resolve_left fun every => all (List.forall_mem_append.1 every).1)

/-- What counts without an insertion counts with it. -/
theorem mem_opening_append {other : Step} (is : step.action = .insert) :
    other ∈ opening (front ++ step :: rest) ↔
      (other = step ∧ ∀ earlier ∈ front, earlier.action ≠ .keep) ∨ other ∈ opening (front ++ rest) := by
  by_cases changes : ∀ earlier ∈ front, earlier.action ≠ .keep
  · rw [opening_append_of_changes changes, opening_append_of_changes changes, opening_change (by rw [is]; decide)]
    simp only [List.mem_append, List.mem_cons]
    constructor
    · rintro (early | rfl | late)
      · exact .inr (.inl early)
      · exact .inl ⟨rfl, changes⟩
      · exact .inr (.inr late)
    · rintro (⟨rfl, _⟩ | early | late)
      · exact .inr (.inl rfl)
      · exact .inl early
      · exact .inr (.inr late)
  · rw [opening_append_of_keep changes, opening_append_of_keep changes, or_iff_right fun here => changes here.2]

theorem deletes_append_insert (is : step.action = .insert) (front rest : List Step) :
    Deletes (front ++ step :: rest) ↔ Deletes (front ++ rest) := by
  constructor
  · rintro ⟨other, listed, deletes⟩
    rcases (mem_opening_append is).1 listed with ⟨rfl, _⟩ | listed
    · rw [is] at deletes
      cases deletes
    · exact ⟨other, listed, deletes⟩
  · rintro ⟨other, listed, deletes⟩
    exact ⟨other, (mem_opening_append is).2 (.inr listed), deletes⟩

/-- An insertion counts for itself only. -/
theorem opens_append_insert (is : step.action = .insert) (front rest : List Step) :
    Opens (front ++ step :: rest) ↔ Opens (front ++ rest) ∧
      ((∀ other ∈ front, other.action ≠ .keep) → step.old = 0 ∨ Deletes (front ++ rest)) := by
  rw [Opens, Opens, deletes_append_insert is]
  constructor
  · rintro (deletes | starts)
    · exact ⟨.inl deletes, fun _ => .inr deletes⟩
    · refine ⟨.inr fun other listed => starts other ((mem_opening_append is).2 (.inr listed)), fun changes => .inl ?_⟩
      exact starts step ((mem_opening_append is).2 (.inl ⟨rfl, changes⟩))
  · rintro ⟨deletes | starts, own⟩
    · exact .inl deletes
    · by_cases changes : ∀ other ∈ front, other.action ≠ .keep
      · rcases own changes with start | deletes
        · refine .inr fun other listed => ?_
          rcases (mem_opening_append is).1 listed with ⟨rfl, _⟩ | listed
          · exact start
          · exact starts other listed
        · exact .inl deletes
      · refine .inr fun other listed => starts other ?_
        exact ((mem_opening_append is).1 listed).resolve_left fun here => changes here.2

/-! Lines of steps. -/

@[simp] theorem filled_cons : Filled (step :: rest) ↔ step.count ≠ 0 ∧ Filled rest := List.forall_mem_cons

@[simp] theorem filled_append : Filled (front ++ rest) ↔ Filled front ∧ Filled rest := List.forall_mem_append

@[simp] theorem filled_reverse : Filled steps.reverse ↔ Filled steps := by simp [Filled]

theorem exists_keepBefore (old new count : Nat) (after : List Step) :
    ∃ kept rest, keepBefore old new count after = kept :: rest ∧ kept.action = .keep ∧ count ≤ kept.count := by
  unfold keepBefore
  split
  · exact ⟨_, _, rfl, rfl, Nat.le_refl count⟩
  · split
    · rename_i is
      exact ⟨_, _, rfl, is, Nat.le_add_left _ _⟩
    · exact ⟨_, _, rfl, rfl, Nat.le_refl count⟩

theorem filled_keepBefore {old new count : Nat} (some : count ≠ 0) (filled : Filled after) :
    Filled (keepBefore old new count after) := by
  unfold keepBefore
  split
  · exact filled_cons.2 ⟨some, filled⟩
  · obtain ⟨first, later⟩ := filled_cons.1 filled
    split
    · refine filled_cons.2 ⟨?_, later⟩
      dsimp only
      omega
    · exact filled_cons.2 ⟨some, filled⟩

theorem filled_keepAfter {old new count : Nat} (some : count ≠ 0) (filled : Filled before) :
    Filled (keepAfter old new count before) := by
  unfold keepAfter
  split
  · exact filled_cons.2 ⟨some, filled⟩
  · obtain ⟨first, later⟩ := filled_cons.1 filled
    split
    · refine filled_cons.2 ⟨?_, later⟩
      dsimp only
      omega
    · exact filled_cons.2 ⟨some, filled⟩

theorem exists_keepAfter (old new count : Nat) (before : List Step) :
    ∃ kept earlier, keepAfter old new count before = kept :: earlier ∧ kept.action = .keep ∧
      opening earlier.reverse = opening before.reverse := by
  unfold keepAfter
  split
  · exact ⟨_, _, rfl, rfl, rfl⟩
  · split
    · rename_i is
      refine ⟨_, _, rfl, is, ?_⟩
      rw [List.reverse_cons, opening_append_keep is]
    · exact ⟨_, _, rfl, rfl, rfl⟩

theorem mem_keepAfter (old new count : Nat) (before : List Step) :
    ∃ kept ∈ keepAfter old new count before, kept.action = .keep := by
  obtain ⟨kept, earlier, found, keeps, _⟩ := exists_keepAfter old new count before
  exact ⟨kept, found ▸ List.mem_cons_self, keeps⟩

theorem opens_keepAfter {old new count : Nat} {after' : List Step} (is : step.action = .keep)
    (opens : Opens (before.reverse ++ step :: after)) : Opens ((keepAfter old new count before).reverse ++ after') := by
  obtain ⟨kept, earlier, found, keeps, same⟩ := exists_keepAfter old new count before
  rw [opens_append_keep is] at opens
  rw [found, reverse_cons_append, opens_append_keep keeps]
  rwa [Opens, Deletes, same]

/-! Moves of a deletion. -/

/-- A deletion in a script that begins well. -/
structure Deleting (before : List Step) (step : Step) (after : List Step) : Prop where
  is : step.action = .delete
  filled : Filled (before.reverse ++ step :: after)
  opens : Opens (before.reverse ++ step :: after)

theorem Deleting.slideUp (deleting : Deleting before step after) : step.slideUp pair previous = 0 := by
  simp [Step.slideUp, deleting.is]

theorem Deleting.slideDown (deleting : Deleting before step after) : step.slideDown pair next = 0 := by
  simp [Step.slideDown, deleting.is]

theorem Deleting.moveUp (pair : Pair) (deleting : Deleting before step after) :
    let focus := LineDiff.moveUp pair before step after
    Deleting focus.before focus.step focus.after := by
  fun_induction LineDiff.moveUp pair before step after with
  | case1 step after => exact deleting
  | case2 step after previous rest is count moves ih =>
      have none : count = 0 := deleting.slideUp
      omega
  | case3 step after previous rest is count stays moves ih =>
      have none : count = 0 := deleting.slideUp
      omega
  | case4 step after previous rest is count stays stays' none ih =>
      have filled := deleting.filled
      simp [none] at filled
  | case5 step after previous rest is count stays stays' filled => exact deleting
  | case6 step after previous rest isnt same ih =>
      obtain ⟨is, filled, opens⟩ := deleting
      rw [reverse_cons_append] at filled opens
      simp only [filled_append, filled_cons] at filled
      refine ih ⟨same.trans is, ?_, ?_⟩
      · simp only [filled_append, filled_cons]
        exact ⟨filled.1, by omega, filled.2.2.2⟩
      · have merged : { previous with count := previous.count + step.count }.action = .delete := same.trans is
        exact (opens_append_delete merged).2 ((opens_append_delete (same.trans is)).1 opens)
  | case7 step after previous rest isnt differ ih =>
      obtain ⟨is, filled, opens⟩ := deleting
      refine ih ⟨is, ?_, ?_⟩
      · simp only [List.reverse_cons, filled_append, filled_cons] at filled ⊢
        tauto
      · rw [List.reverse_cons, opens_append_delete is] at opens
        exact (opens_append_delete is).2 (opens_of_append opens)

theorem Deleting.moveDown (pair : Pair) (deleting : Deleting before step after) :
    let focus := LineDiff.moveDown pair before step after
    Deleting focus.before focus.step focus.after := by
  fun_induction LineDiff.moveDown pair before step after with
  | case1 before step => exact deleting
  | case2 before step next rest is count moves ih =>
      have none : count = 0 := deleting.slideDown
      omega
  | case3 before step next rest is count stays moves ih =>
      have none : count = 0 := deleting.slideDown
      omega
  | case4 before step next rest is count stays stays' none ih =>
      have filled := deleting.filled
      simp [none] at filled
  | case5 before step next rest is count stays stays' filled => exact deleting
  | case6 before step next rest isnt same ih =>
      obtain ⟨is, filled, opens⟩ := deleting
      simp only [filled_append, filled_cons] at filled
      refine ih ⟨is, ?_, ?_⟩
      · simp only [filled_append, filled_cons]
        exact ⟨filled.1, by omega, filled.2.2.2⟩
      · have merged : { step with count := step.count + next.count }.action = .delete := is
        exact (opens_append_delete merged).2 ((opens_append_delete is).1 opens)
  | case7 before step next rest isnt differ ih =>
      obtain ⟨is, filled, opens⟩ := deleting
      refine ih ⟨is, ?_, ?_⟩
      · simp only [List.reverse_cons, filled_append, filled_cons] at filled ⊢
        tauto
      · rw [opens_append_delete is] at opens
        rw [List.reverse_cons, opens_append_delete is]
        exact opens_append isnt opens

/-! Moves of an insertion. -/

/-- Whether an insertion can move over the kept lines that follow it. -/
def Slides (pair : Pair) (step : Step) (after : List Step) : Prop :=
  ∃ next rest, after = next :: rest ∧ next.action = .keep ∧ 0 < step.slideDown pair next

/-- An insertion in a script that begins well without it. Before the first kept lines it stands at the start, or
beside a deletion, or it is not done. -/
structure Inserting (pair : Pair) (p r : Point) (before : List Step) (step : Step) (after : List Step) : Prop where
  is : step.action = .insert
  path : Path (Step.Moves pair) p (before.reverse ++ step :: after) r
  filled : Filled (before.reverse ++ step :: after)
  others : Opens (before.reverse ++ after)
  own : (∀ other ∈ before, other.action ≠ .keep) → step.old = 0 ∨ Deletes (before.reverse ++ after) ∨ Slides pair step after

theorem Inserting.of_opens (is : step.action = .insert) (path : Path (Step.Moves pair) p (before.reverse ++ step :: after) r)
    (filled : Filled (before.reverse ++ step :: after)) (opens : Opens (before.reverse ++ step :: after)) :
    Inserting pair p r before step after := by
  obtain ⟨others, own⟩ := (opens_append_insert is _ _).1 opens
  refine ⟨is, path, filled, others, fun changes => ?_⟩
  rcases own (by simpa using changes) with start | deletes
  · exact .inl start
  · exact .inr (.inl deletes)

/-- An insertion that cannot move on. -/
theorem Inserting.opens (inserting : Inserting pair p r before step after) (stays : ¬ Slides pair step after) :
    Opens (before.reverse ++ step :: after) := by
  refine (opens_append_insert inserting.is _ _).2 ⟨inserting.others, fun changes => ?_⟩
  rcases inserting.own (by simpa using changes) with start | deletes | slides
  · exact .inl start
  · exact .inr deletes
  · exact absurd slides stays

theorem commonHead_pos {old new limit : Nat} (some : limit ≠ 0) (same : pair.old[old]? = pair.new[new]?) :
    0 < pair.commonHead old new limit := by
  obtain ⟨limit, rfl⟩ := Nat.exists_eq_succ_of_ne_zero some
  rw [Pair.commonHead, if_pos (beq_iff_eq.2 same)]
  omega

/-- Over kept lines that an insertion has passed it can move back. -/
theorem slides_of_passed {q : Point} (is : previous.action = .keep) (some : previous.count ≠ 0)
    (path : Path (Step.Moves pair) q (previous :: rest) r) (inserts : step.action = .insert) (filled : step.count ≠ 0)
    (keeps : next.action = .keep) (long : next.count ≠ 0) (passed : Path (Step.Moves pair) q (step :: next :: after) r) :
    Slides pair step (next :: after) := by
  obtain ⟨_, move, _⟩ := path_cons.1 path
  obtain ⟨_, move', later⟩ := path_cons.1 passed
  obtain ⟨_, move'', _⟩ := path_cons.1 later
  cases move with
  | delete here => cases is
  | insert here => cases is
  | @keep old new size same =>
      cases move' with
      | keep _ => cases inserts
      | delete _ => cases inserts
      | @insert old' new' size' _ =>
          cases move'' with
          | delete _ => cases keeps
          | insert _ => cases keeps
          | @keep old'' new'' size'' same'' =>
              refine ⟨_, _, rfl, rfl, commonHead_pos ?_ ?_⟩
              · dsimp only at long filled ⊢
                omega
              · exact same 0 (Nat.pos_of_ne_zero some)

theorem deletes_of_changes (isnt : next.action ≠ .keep) (other : next.action ≠ .insert)
    (changes : ∀ earlier ∈ before, earlier.action ≠ .keep) : Deletes (before.reverse ++ next :: rest) := by
  refine ⟨next, ?_, ?_⟩
  · rw [opening_append_of_changes (by simpa using changes), opening_change isnt]
    exact List.mem_append_right _ List.mem_cons_self
  · cases action : next.action with
    | keep => exact absurd action isnt
    | delete => rfl
    | insert => exact absurd action other

theorem Inserting.moveUp (inserting : Inserting pair p r before step after) :
    let focus := LineDiff.moveUp pair before step after
    Inserting pair p r focus.before focus.step focus.after := by
  fun_induction LineDiff.moveUp pair before step after with
  | case1 step after => exact inserting
  | case2 step after previous rest is count moves ih =>
      obtain ⟨inserts, path, filled, others, _⟩ := inserting
      rw [reverse_cons_append] at path filled others
      simp only [filled_append, filled_cons, filled_reverse] at filled
      have kept : { previous with count := previous.count - count }.action = .keep := is
      refine ih ⟨inserts, ?_, ?_, ?_, fun changes => absurd kept (changes _ List.mem_cons_self)⟩
      · rw [reverse_cons_append]
        exact path.detour fun q path => (path_slideUp is path).2 moves.1
      · simp only [List.reverse_cons, filled_append, filled_cons, filled_reverse]
        exact ⟨⟨filled.1, by omega, fun _ listed => absurd listed List.not_mem_nil⟩, filled.2.2.1,
          filled_keepBefore (by omega) filled.2.2.2⟩
      · rw [reverse_cons_append, opens_append_keep kept]
        exact (opens_append_keep is).1 others
  | case3 step after previous rest is count stays moves ih =>
      obtain ⟨inserts, path, filled, others, _⟩ := inserting
      rw [reverse_cons_append] at path filled others
      simp only [filled_append, filled_cons, filled_reverse] at filled
      obtain ⟨next, later, found, keeps, long⟩ :=
        exists_keepBefore (previous.oldStop - count) (step.newStop - count) count after
      have passed : ∀ q, Path (Step.Moves pair) q (previous :: step :: after) r →
          Path (Step.Moves pair) q (step.up count :: next :: later) r := by
        intro q path
        obtain ⟨bound, moved⟩ := path_slideUp is path
        rw [← found]
        -- the whole stretch is passed, and nothing of it is left before the insertion
        refine path_drop ?_ ?_ (moved moves)
        · exact is
        · exact Nat.sub_eq_zero_of_le (by omega)
      obtain ⟨q, first, last⟩ := path_append.1 path
      rw [found] at ih ⊢
      refine ih ⟨inserts, path_append.2 ⟨q, first, passed q last⟩, ?_, ?_, fun _ => .inr (.inr ?_)⟩
      · rw [← found]
        simp only [filled_append, filled_cons, filled_reverse]
        exact ⟨filled.1, filled.2.2.1, filled_keepBefore (by omega) filled.2.2.2⟩
      · exact (opens_append_keep keeps).2 ((opens_append_keep is).1 others)
      · exact slides_of_passed is filled.2.1 last inserts filled.2.2.1 keeps (by omega) (passed q last)
  | case4 step after previous rest is count stays stays' none ih =>
      have filled := inserting.filled
      simp [none] at filled
  | case5 step after previous rest is count stays stays' filled => exact inserting
  | case6 step after previous rest isnt same ih =>
      obtain ⟨inserts, path, filled, others, _⟩ := inserting
      rw [reverse_cons_append] at path filled others
      simp only [filled_append, filled_cons, filled_reverse] at filled
      obtain ⟨others, own⟩ := (opens_append_insert (same.trans inserts) _ _).1 others
      refine ih ⟨same.trans inserts, ?_, ?_, others, ?_⟩
      · exact path.detour fun q path => path_merge same (by rw [inserts]; decide) path
      · simp only [filled_append, filled_cons, filled_reverse]
        exact ⟨filled.1, by omega, filled.2.2.2⟩
      · intro changes
        rcases own (by simpa using changes) with start | deletes
        · exact .inl start
        · exact .inr (.inl deletes)
  | case7 step after previous rest isnt differ ih =>
      obtain ⟨inserts, path, filled, others, _⟩ := inserting
      rw [reverse_cons_append] at path filled others
      simp only [filled_append, filled_cons, filled_reverse] at filled
      refine ih ⟨inserts, path.detour fun q path => path_swap isnt (by rw [inserts]; decide) differ path, ?_, others, ?_⟩
      · simp only [filled_append, filled_cons, filled_reverse]
        exact ⟨filled.1, filled.2.2.1, filled.2.1, filled.2.2.2⟩
      · exact fun changes => .inr (.inl (deletes_of_changes isnt (fun same => differ (same.trans inserts.symm)) changes))

theorem Inserting.moveDown (inserting : Inserting pair p r before step after) :
    let focus := LineDiff.moveDown pair before step after
    Inserting pair p r focus.before focus.step focus.after ∧ ¬ Slides pair focus.step focus.after := by
  fun_induction LineDiff.moveDown pair before step after with
  | case1 before step =>
      refine ⟨inserting, ?_⟩
      rintro ⟨_, _, found, _⟩
      cases found
  | case2 before step next rest is count moves ih =>
      obtain ⟨inserts, path, filled, others, _⟩ := inserting
      simp only [filled_append, filled_cons, filled_reverse] at filled
      obtain ⟨kept, listed, keeps⟩ := mem_keepAfter next.old step.new count before
      refine ih ⟨inserts, (path_slideDown is path).2 moves.1, ?_, opens_keepAfter is others,
        fun changes => absurd keeps (changes _ listed)⟩
      simp only [filled_append, filled_cons, filled_reverse]
      exact ⟨filled_keepAfter (by omega) filled.1, filled.2.1, by omega, filled.2.2.2⟩
  | case3 before step next rest is count stays moves ih =>
      obtain ⟨inserts, path, filled, others, _⟩ := inserting
      simp only [filled_append, filled_cons, filled_reverse] at filled
      obtain ⟨kept, listed, keeps⟩ := mem_keepAfter next.old step.new count before
      obtain ⟨bound, moved⟩ := path_slideDown is path
      refine ih ⟨inserts, (moved moves).detour fun q path => ?_, ?_, opens_keepAfter is others,
        fun changes => absurd keeps (changes _ listed)⟩
      · obtain ⟨q', move, path⟩ := path_cons.1 path
        refine .cons move (path_drop ?_ ?_ path)
        · exact is
        · exact Nat.sub_eq_zero_of_le (by omega)
      · simp only [filled_append, filled_cons, filled_reverse]
        exact ⟨filled_keepAfter (by omega) filled.1, filled.2.1, filled.2.2.2⟩
  | case4 before step next rest is count stays stays' none ih =>
      have filled := inserting.filled
      simp [none] at filled
  | case5 before step next rest is count stays stays' filled =>
      refine ⟨inserting, ?_⟩
      rintro ⟨_, _, found, _, slides⟩
      cases found
      exact stays' slides
  | case6 before step next rest isnt same ih =>
      obtain ⟨inserts, path, filled, others, own⟩ := inserting
      simp only [filled_append, filled_cons, filled_reverse] at filled
      have is : next.action = .insert := same.trans inserts
      refine ih ⟨inserts, path.detour fun q path => path_merge same.symm isnt path, ?_,
        ((opens_append_insert is _ _).1 others).1, ?_⟩
      · simp only [filled_append, filled_cons, filled_reverse]
        exact ⟨filled.1, by omega, filled.2.2.2⟩
      · intro changes
        rcases own changes with start | deletes | ⟨_, _, found, keeps, _⟩
        · exact .inl start
        · exact .inr (.inl ((deletes_append_insert is _ _).1 deletes))
        · cases found
          exact absurd keeps isnt
  | case7 before step next rest isnt differ ih =>
      obtain ⟨inserts, path, filled, others, _⟩ := inserting
      simp only [filled_append, filled_cons, filled_reverse] at filled
      refine ih ⟨inserts, ?_, ?_, ?_, ?_⟩
      · rw [reverse_cons_append]
        exact path.detour fun q path => path_swap (by rw [inserts]; decide) isnt (fun same => differ same.symm) path
      · simp only [List.reverse_cons, filled_append, filled_cons, filled_reverse]
        exact ⟨⟨filled.1, filled.2.2.1, fun _ listed => absurd listed List.not_mem_nil⟩, filled.2.1, filled.2.2.2⟩
      · rwa [reverse_cons_append]
      · intro changes
        rw [reverse_cons_append]
        exact .inr (.inl (deletes_of_changes isnt (fun same => differ (same.trans inserts.symm)) fun other listed =>
          changes other (List.mem_cons_of_mem _ listed)))

/-! Settled scripts. -/

theorem settleFrom_preserves (holds : List Step → Prop) {action : Action}
    (moves : ∀ before step after, step.action = action → holds (before.reverse ++ step :: after) →
      let up := moveUp pair before step after
      let down := moveDown pair up.before up.step up.after
      holds (down.before.reverse ++ down.step :: down.after))
    (rounds : Nat) (start : holds (before.reverse ++ after)) : holds (settleFrom pair action rounds before after) := by
  induction rounds generalizing before after with
  | zero => exact start
  | succ rounds ih =>
      cases after with
      | nil => rwa [List.append_nil] at start
      | cons step after =>
          rw [settleFrom]
          split
          · rename_i is
            apply ih
            rw [reverse_cons_append]
            exact moves before step after is start
          · apply ih
            rwa [reverse_cons_append]

/-- A settled script begins as well as the script does. -/
theorem opens_settle (path : Path (Step.Moves pair) p steps r) (filled : Filled steps) (opens : Opens steps) :
    Filled (settle pair steps) ∧ Opens (settle pair steps) := by
  have deleted : Filled (settleAll pair .delete steps) ∧ Opens (settleAll pair .delete steps) := by
    refine settleFrom_preserves (fun steps => Filled steps ∧ Opens steps) ?_ _ ⟨filled, opens⟩
    intro before step after is ⟨filled, opens⟩
    have up : Deleting before step after := ⟨is, filled, opens⟩
    have down := (up.moveUp pair).moveDown pair
    exact ⟨down.filled, down.opens⟩
  have path' : Path (Step.Moves pair) p (settleAll pair .delete steps) r := path_settleFrom (by decide) _ path
  have inserted : Path (Step.Moves pair) p (settle pair steps) r ∧ Filled (settle pair steps) ∧
      Opens (settle pair steps) := by
    refine settleFrom_preserves (fun steps => Path (Step.Moves pair) p steps r ∧ Filled steps ∧ Opens steps) ?_ _
      ⟨path', deleted⟩
    intro before step after is ⟨path, filled, opens⟩
    obtain ⟨down, stays⟩ := (Inserting.of_opens is path filled opens).moveUp.moveDown
    exact ⟨down.path, down.filled, down.opens stays⟩
  exact inserted.2

theorem filled_of_advances (path : Path (Step.Advances pair) p steps r) : Filled steps := by
  induction path with
  | nil p => exact fun _ listed => absurd listed List.not_mem_nil
  | cons move _ ih => exact filled_cons.2 ⟨move.filled, ih⟩

/-- Without a deletion, insertions before the first kept lines stand at the start of the old text. -/
theorem opens_of_advances (path : Path (Step.Advances pair) p steps r) (start : p.1 = 0) : Opens steps := by
  induction path with
  | nil p => exact .inr fun _ listed => absurd listed List.not_mem_nil
  | @cons step steps p q r move rest ih =>
      cases move.moves with
      | keep same =>
          refine .inr fun other listed => ?_
          rw [opening_keep rfl] at listed
          cases listed
      | delete here =>
          exact .inl (deletes_cons rfl steps)
      | insert here =>
          have low := Nat.le_zero.1 (start ▸ move.old)
          exact (opens_append_insert rfl [] steps).2 ⟨ih start, fun _ => .inl low⟩

namespace Change

theorem kept_ofStep (step : Step) : (ofStep step).kept = true ↔ step.action = .keep := by
  unfold ofStep
  split
  · rename_i is
    exact iff_of_true rfl is
  · rename_i is
    simp [is]
  · rename_i is
    simp [is]

theorem exists_prepend (change : Change) (changes : List Change) :
    ∃ first rest, prepend change changes = first :: rest ∧ first.kept = change.kept ∧ change.oldCount ≤ first.oldCount ∧
      (first.oldCount = 0 →
        first.old = change.old ∧ ∀ next ∈ changes.head?, next.kept = change.kept → next.oldCount = 0) := by
  unfold prepend
  split
  · exact ⟨change, [], rfl, rfl, Nat.le_refl _, fun _ => ⟨rfl, fun _ found => by cases found⟩⟩
  · rename_i next rest
    split
    · refine ⟨change.join next, rest, rfl, rfl, Nat.le_add_right _ _, fun none => ?_⟩
      dsimp only [join] at none ⊢
      refine ⟨if_neg (by omega), fun other found _ => ?_⟩
      cases found
      omega
    · rename_i differ
      refine ⟨change, next :: rest, rfl, rfl, Nat.le_refl _, fun _ => ⟨rfl, fun other found same => ?_⟩⟩
      cases found
      exact absurd same.symm differ

/-- A difference that takes nothing from the old text at first begins with an insertion, and with insertions alone
up to the first kept lines. -/
theorem oldCount_ofSteps {first : Change} (filled : Filled steps) (found : (ofSteps steps).head? = some first)
    (none : first.oldCount = 0) :
    ¬ Deletes steps ∧ ∃ step rest, steps = step :: rest ∧ step.action = .insert ∧ first.old = step.old := by
  induction steps generalizing first with
  | nil => cases found
  | cons step steps ih =>
      obtain ⟨here, filled⟩ := filled_cons.1 filled
      obtain ⟨first', rest, parts, kept, most, low⟩ := exists_prepend (ofStep step) (ofSteps steps)
      obtain rfl : first' = first := by
        change (prepend _ (ofSteps steps)).head? = _ at found
        rw [parts] at found
        exact Option.some.inj found
      obtain ⟨old, others⟩ := low none
      have inserts : step.action = .insert := by
        cases action : step.action with
        | insert => rfl
        | keep =>
            simp only [ofStep, action] at most
            omega
        | delete =>
            simp only [ofStep, action] at most
            omega
      refine ⟨?_, step, steps, rfl, inserts, old.trans (by simp [ofStep, inserts])⟩
      intro deletes
      have deletes' : Deletes steps := (deletes_append_insert inserts [] steps).1 deletes
      cases steps with
      | nil =>
          obtain ⟨_, listed, _⟩ := deletes'
          cases listed
      | cons second steps =>
          obtain ⟨next, _, parts', kept', _⟩ := exists_prepend (ofStep second) (ofSteps steps)
          have head : (ofSteps (second :: steps)).head? = some next := by
            change (prepend _ (ofSteps steps)).head? = _
            rw [parts']
            rfl
          have isnt : second.action ≠ .keep := by
            intro is
            obtain ⟨_, listed, _⟩ := deletes'
            rw [opening_keep is] at listed
            cases listed
          have same : next.kept = (ofStep step).kept := by
            rw [kept', Bool.eq_iff_iff, kept_ofStep, kept_ofStep, inserts]
            exact iff_of_false isnt Action.noConfusion
          exact (ih filled head (others next head same)).1 deletes'

/-- A difference begins at the start of the old text. -/
theorem old_of_head? {first : Change} (found : pair.changes.head? = some first) : first.old = 0 := by
  have script := pair.advances_script (Box.whole pair) (Nat.zero_le _) (Nat.zero_le _)
  obtain ⟨filled, opens⟩ := opens_settle (pair.path_script (Box.whole pair) (Nat.zero_le _) (Nat.zero_le _))
    (filled_of_advances script) (opens_of_advances script rfl)
  by_cases none : first.oldCount = 0
  · obtain ⟨keeps, step, rest, whole, inserts, same⟩ := oldCount_ofSteps filled found none
    rw [same]
    refine opens.resolve_left keeps step ?_
    rw [whole, opening_change (by rw [inserts]; decide)]
    exact List.mem_cons_self
  · have path := path_changes pair
    cases changes : pair.changes with
    | nil =>
        rw [changes] at found
        cases found
    | cons change rest =>
        rw [changes] at found path
        cases found
        obtain ⟨_, move, _⟩ := path_cons.1 path
        exact move.old none

end Change
end TraceWeave.LineDiff
