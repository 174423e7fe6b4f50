import TraceWeave.LineDiff.Change

/-!
Scripts replayed. A script is followed through both texts at once: a kept stretch passes the same lines in
both, a deletion passes old lines and an insertion new ones. The script of a box leads from its first corner
to its last, and moving changes about in a script does not change where it leads.
-/
namespace TraceWeave.LineDiff

/-- Lines passed in the old and in the new text. -/
abbrev Point := Nat × Nat

/-- Items that lead, one after the other, from one point to another. -/
inductive Path {α : Type} (moves : α → Point → Point → Prop) : Point → List α → Point → Prop
  | nil (point : Point) : Path moves point [] point
  | cons {item : α} {items : List α} {p q r : Point} (move : moves item p q) (rest : Path moves q items r) :
      Path moves p (item :: items) r

section
variable {α : Type} {moves : α → Point → Point → Prop} {item : α} {items first second : List α} {p q r : Point}

theorem path_cons : Path moves p (item :: items) r ↔ ∃ q, moves item p q ∧ Path moves q items r := by
  constructor
  · intro path
    cases path with
    | cons move rest => exact ⟨_, move, rest⟩
  · rintro ⟨q, move, rest⟩
    exact .cons move rest

theorem path_append : Path moves p (first ++ second) r ↔ ∃ q, Path moves p first q ∧ Path moves q second r := by
  constructor
  · intro path
    induction first generalizing p with
    | nil => exact ⟨p, .nil p, path⟩
    | cons item first ih =>
        obtain ⟨q, move, path⟩ := path_cons.1 path
        obtain ⟨middle, before, after⟩ := ih path
        exact ⟨middle, .cons move before, after⟩
  · rintro ⟨q, before, after⟩
    induction before with
    | nil => exact after
    | cons move _ ih => exact .cons move (ih after)

theorem path_single (move : moves item p q) : Path moves p [item] q := .cons move (.nil q)

theorem Path.mono {moves' : α → Point → Point → Prop} (weaker : ∀ item p q, moves item p q → moves' item p q)
    (path : Path moves p items r) : Path moves' p items r := by
  induction path with
  | nil p => exact .nil p
  | cons move _ ih => exact .cons (weaker _ _ _ move) ih

/-- What was passed last stands closest to what follows. -/
theorem reverse_cons_append (item : α) (before after : List α) :
    (item :: before).reverse ++ after = before.reverse ++ item :: after := by
  rw [List.reverse_cons, List.append_assoc, List.singleton_append]

/-- Part of a path can be taken another way. -/
theorem Path.detour {front : List α} (path : Path moves p (front ++ first) r)
    (other : ∀ q, Path moves q first r → Path moves q second r) : Path moves p (front ++ second) r := by
  obtain ⟨q, before, after⟩ := path_append.1 path
  exact path_append.2 ⟨q, before, other q after⟩

end

namespace Pair

variable {pair : Pair} {old new count more : Nat}

/-- As many lines from two positions on are the same. -/
def Same (pair : Pair) (old new count : Nat) : Prop := ∀ i < count, pair.old[old + i]? = pair.new[new + i]?

theorem same_add : pair.Same old new (count + more) ↔ pair.Same old new count ∧ pair.Same (old + count) (new + count) more := by
  constructor
  · intro same
    refine ⟨fun i bound => same i (by omega), fun i bound => ?_⟩
    have here := same (count + i) (by omega)
    rwa [← Nat.add_assoc, ← Nat.add_assoc] at here
  · rintro ⟨first, second⟩ i bound
    by_cases early : i < count
    · exact first i early
    · have here := second (i - count) (by omega)
      rwa [show old + count + (i - count) = old + i by omega, show new + count + (i - count) = new + i by omega] at here

theorem same_commonHead (pair : Pair) (old new limit : Nat) : pair.Same old new (pair.commonHead old new limit) := by
  induction limit generalizing old new with
  | zero => exact fun i bound => absurd bound (Nat.not_lt_zero i)
  | succ limit ih =>
      rw [commonHead]
      split
      · rename_i equal
        intro i bound
        cases i with
        | zero => exact beq_iff_eq.1 equal
        | succ i =>
            have here := ih (old + 1) (new + 1) i (by omega)
            rwa [Nat.add_right_comm old 1 i, Nat.add_right_comm new 1 i] at here
      · exact fun i bound => absurd bound (Nat.not_lt_zero i)

theorem same_commonTail {limit : Nat} (room : limit ≤ old) (room' : limit ≤ new) :
    pair.Same (old - pair.commonTail old new limit) (new - pair.commonTail old new limit) (pair.commonTail old new limit) := by
  induction limit generalizing old new with
  | zero => exact fun i bound => absurd bound (Nat.not_lt_zero i)
  | succ limit ih =>
      have bound := pair.commonTail_le (old - 1) (new - 1) limit
      rw [commonTail]
      split
      · rename_i equal
        have shorter := @ih (old - 1) (new - 1) (by omega) (by omega)
        generalize pair.commonTail (old - 1) (new - 1) limit = tail at shorter bound ⊢
        rw [same_add, show old - (tail + 1) = old - 1 - tail by omega, show new - (tail + 1) = new - 1 - tail by omega]
        refine ⟨shorter, fun i here => ?_⟩
        rw [Nat.lt_one_iff.1 here, Nat.sub_add_cancel (by omega), Nat.sub_add_cancel (by omega)]
        exact beq_iff_eq.1 equal
      · exact fun i bound => absurd bound (Nat.not_lt_zero i)

end Pair

/-- What a step does. Where a deletion stands in the new text, and an insertion in the old one, does not matter. -/
inductive Step.Moves (pair : Pair) : Step → Point → Point → Prop
  | keep {old new count : Nat} (same : pair.Same old new count) :
      Moves pair ⟨.keep, old, new, count⟩ (old, new) (old + count, new + count)
  | delete {old new count : Nat} (here : Nat) : Moves pair ⟨.delete, old, new, count⟩ (old, here) (old + count, here)
  | insert {old new count : Nat} (here : Nat) : Moves pair ⟨.insert, old, new, count⟩ (here, new) (here, new + count)

variable {pair : Pair} {p q r : Point} {step previous next : Step} {before after steps : List Step}

/-- What a step of a script does that nothing was moved in: it is not over no lines, and it is said to stand no
further down in the old text than it does. -/
structure Step.Advances (pair : Pair) (step : Step) (p q : Point) : Prop where
  moves : step.Moves pair p q
  old : step.old ≤ p.1
  filled : step.count ≠ 0

/-! Scripts. -/

theorem path_keep {old new count : Nat} (same : pair.Same old new count) :
    Path (Step.Advances pair) (old, new) (Step.some? .keep old new count) (old + count, new + count) := by
  unfold Step.some?
  split
  · rename_i none
    rw [none]
    exact .nil _
  · rename_i filled
    exact path_single ⟨.keep same, Nat.le_refl old, filled⟩

theorem Box.path_replace (pair : Pair) {box : Box} (across : box.oldStart ≤ box.oldStop) (along : box.newStart ≤ box.newStop) :
    Path (Step.Advances pair) (box.oldStart, box.newStart) box.replace (box.oldStop, box.newStop) := by
  have deleted : Path (Step.Advances pair) (box.oldStart, box.newStart)
      (Step.some? .delete box.oldStart box.newStart box.width) (box.oldStop, box.newStart) := by
    unfold Step.some? Box.width
    split
    · rw [show box.oldStop = box.oldStart by omega]
      exact .nil _
    · rename_i filled
      have move : Step.Moves pair ⟨.delete, box.oldStart, box.newStart, box.oldStop - box.oldStart⟩ _ _ := .delete box.newStart
      rw [Nat.add_sub_cancel' across] at move
      exact path_single ⟨move, Nat.le_refl box.oldStart, filled⟩
  have inserted : Path (Step.Advances pair) (box.oldStop, box.newStart)
      (Step.some? .insert box.oldStart box.newStart box.height) (box.oldStop, box.newStop) := by
    unfold Step.some? Box.height
    split
    · rw [show box.newStop = box.newStart by omega]
      exact .nil _
    · rename_i filled
      have move : Step.Moves pair ⟨.insert, box.oldStart, box.newStart, box.newStop - box.newStart⟩ _ _ := .insert box.oldStop
      rw [Nat.add_sub_cancel' along] at move
      exact path_single ⟨move, across, filled⟩
  exact path_append.2 ⟨_, deleted, inserted⟩

theorem Box.head_le (box : Box) (pair : Pair) : box.head pair ≤ min box.width box.height := pair.commonHead_le _ _ _

theorem Box.tail_le (box : Box) (pair : Pair) : box.tail pair ≤ min box.width box.height := pair.commonTail_le _ _ _

/-- A script leads from corner to corner. -/
theorem Pair.advances_script (pair : Pair) (box : Box) (across : box.oldStart ≤ box.oldStop) (along : box.newStart ≤ box.newStop) :
    Path (Step.Advances pair) (box.oldStart, box.newStart) (pair.script box) (box.oldStop, box.newStop) := by
  fun_induction Pair.script pair box with
  | case1 box core steps upTo beyond =>
      have head := box.head_le pair
      have tail := (box.dropHead (box.head pair)).tail_le pair
      have opening := pair.same_commonHead box.oldStart box.newStart (min box.width box.height)
      have closing : pair.Same core.oldStop core.newStop ((box.dropHead (box.head pair)).tail pair) := by
        refine Pair.same_commonTail ?_ ?_
        · simp only [Box.width, Box.dropHead]
          omega
        · simp only [Box.height, Box.dropHead]
          omega
      simp only [Box.width, Box.height, Box.dropHead] at head tail
      have across' : core.oldStart ≤ core.oldStop := by
        simp only [core, Box.core, Box.dropHead, Box.dropTail]
        omega
      have along' : core.newStart ≤ core.newStop := by
        simp only [core, Box.core, Box.dropHead, Box.dropTail]
        omega
      have inner : Path (Step.Advances pair) (core.oldStart, core.newStart) steps (core.oldStop, core.newStop) := by
        dsimp only [steps]
        split
        · exact core.path_replace pair across' along'
        · rename_i point cuts _
          obtain ⟨left, right, low, high, _⟩ := id cuts
          exact path_append.2 ⟨_, upTo point cuts left low, beyond point cuts right high⟩
      have last := path_keep closing
      have stop : core.oldStop + (box.dropHead (box.head pair)).tail pair = box.oldStop := by
        simp only [core, Box.core, Box.dropHead, Box.dropTail]
        omega
      have stop' : core.newStop + (box.dropHead (box.head pair)).tail pair = box.newStop := by
        simp only [core, Box.core, Box.dropHead, Box.dropTail]
        omega
      rw [stop, stop'] at last
      exact path_append.2 ⟨_, path_append.2 ⟨_, path_keep opening, inner⟩, last⟩

theorem Pair.path_script (pair : Pair) (box : Box) (across : box.oldStart ≤ box.oldStop) (along : box.newStart ≤ box.newStop) :
    Path (Step.Moves pair) (box.oldStart, box.newStart) (pair.script box) (box.oldStop, box.newStop) :=
  (pair.advances_script box across along).mono fun _ _ _ advances => advances.moves

/-! Moves of changes. -/

theorem path_keepBefore {old new count : Nat} (path : Path (Step.Moves pair) p (⟨.keep, old, new, count⟩ :: after) r) :
    Path (Step.Moves pair) p (keepBefore old new count after) r := by
  unfold keepBefore
  split
  · exact path
  · rename_i step steps
    split
    · rename_i is
      obtain ⟨q, move, rest⟩ := path_cons.1 path
      obtain ⟨q', move', rest'⟩ := path_cons.1 rest
      cases move with
      | keep same =>
          cases move' with
          | keep same' =>
              dsimp only
              rw [Nat.add_sub_cancel, Nat.add_sub_cancel, Nat.add_comm _ count]
              refine .cons (.keep (Pair.same_add.2 ⟨same, same'⟩)) ?_
              rwa [← Nat.add_assoc, ← Nat.add_assoc]
          | delete here => cases is
          | insert here => cases is
    · exact path

theorem path_keepAfter {old new count : Nat} (path : Path (Step.Moves pair) p (⟨.keep, old, new, count⟩ :: before).reverse r) :
    Path (Step.Moves pair) p (keepAfter old new count before).reverse r := by
  unfold keepAfter
  split
  · exact path
  · rename_i step steps
    split
    · rename_i is
      rw [List.reverse_cons, reverse_cons_append] at path
      rw [List.reverse_cons]
      refine path.detour fun q path => ?_
      obtain ⟨q', move, rest⟩ := path_cons.1 path
      obtain ⟨r', move', rest'⟩ := path_cons.1 rest
      cases rest'
      cases move with
      | keep same =>
          cases move' with
          | keep same' =>
              have move : Step.Moves pair ⟨.keep, _, _, _⟩ _ _ := .keep (Pair.same_add.2 ⟨same, same'⟩)
              rw [← Nat.add_assoc, ← Nat.add_assoc] at move
              exact path_single move
      | delete here => cases is
      | insert here => cases is
    · exact path

/-- An insertion moves up over kept lines that end like it. -/
theorem path_slideUp (is : previous.action = .keep) (path : Path (Step.Moves pair) p (previous :: step :: after) r) :
    let count := step.slideUp pair previous
    count ≤ previous.count ∧ (0 < count → Path (Step.Moves pair) p ({ previous with count := previous.count - count } ::
      step.up count :: keepBefore (previous.oldStop - count) (step.newStop - count) count after) r) := by
  obtain ⟨q, move, rest⟩ := path_cons.1 path
  obtain ⟨q', move', rest'⟩ := path_cons.1 rest
  cases move with
  | delete here => cases is
  | insert here => cases is
  | @keep old new size same =>
      cases move' with
      | keep same' => exact ⟨Nat.zero_le _, fun contrary => absurd contrary (Nat.lt_irrefl 0)⟩
      | delete here => exact ⟨Nat.zero_le _, fun contrary => absurd contrary (Nat.lt_irrefl 0)⟩
      | @insert old' _ size' _ =>
          change let count := pair.commonTail (old + size) (new + size + size') (min size size')
            count ≤ size ∧ (0 < count → Path (Step.Moves pair) (old, new) (⟨.keep, old, new, size - count⟩ ::
              ⟨.insert, old' - count, new + size - count, size'⟩ ::
                keepBefore (old + size - count) (new + size + size' - count) count after) r)
          intro count
          have bound : count ≤ min size size' := pair.commonTail_le _ _ _
          have moved : pair.Same (old + size - count) (new + size + size' - count) count :=
            Pair.same_commonTail (by omega) (by omega)
          clear_value count
          obtain ⟨left, rfl⟩ := Nat.exists_eq_add_of_le' (show count ≤ size by omega)
          refine ⟨by omega, fun _ => ?_⟩
          rw [Nat.add_sub_cancel]
          rw [show old + (left + count) - count = old + left by omega,
            show new + (left + count) + size' - count = new + left + size' by omega] at moved ⊢
          rw [show new + (left + count) - count = new + left by omega]
          refine .cons (.keep (Pair.same_add.1 same).1) (.cons (.insert (old + left)) (path_keepBefore (.cons (.keep moved) ?_)))
          rwa [Nat.add_assoc, show new + left + size' + count = new + (left + count) + size' by omega]

/-- An insertion moves down over kept lines that begin like it. -/
theorem path_slideDown (is : next.action = .keep) (path : Path (Step.Moves pair) p (before.reverse ++ step :: next :: after) r) :
    let count := step.slideDown pair next
    count ≤ next.count ∧ (0 < count → Path (Step.Moves pair) p ((keepAfter next.old step.new count before).reverse ++
      step.down count :: { next.down count with count := next.count - count } :: after) r) := by
  obtain ⟨q, first, path⟩ := path_append.1 path
  obtain ⟨q', move', rest⟩ := path_cons.1 path
  obtain ⟨q'', move, rest'⟩ := path_cons.1 rest
  cases move with
  | delete here => cases is
  | insert here => cases is
  | @keep old new size same =>
      cases move' with
      | keep same' => exact ⟨Nat.zero_le _, fun contrary => absurd contrary (Nat.lt_irrefl 0)⟩
      | delete here => exact ⟨Nat.zero_le _, fun contrary => absurd contrary (Nat.lt_irrefl 0)⟩
      | @insert old' start size' _ =>
          change let count := pair.commonHead old start (min size size')
            count ≤ size ∧ (0 < count → Path (Step.Moves pair) p ((keepAfter old start count before).reverse ++
              ⟨.insert, old' + count, start + count, size'⟩ ::
                ⟨.keep, old + count, start + size' + count, size - count⟩ :: after) r)
          intro count
          have bound : count ≤ min size size' := pair.commonHead_le _ _ _
          have moved : pair.Same old start count := pair.same_commonHead _ _ _
          clear_value count
          obtain ⟨left, rfl⟩ := Nat.exists_eq_add_of_le (show count ≤ size by omega)
          refine ⟨by omega, fun _ => path_append.2 ⟨(old + count, start + count), path_keepAfter ?_, ?_⟩⟩
          · rw [List.reverse_cons]
            exact path_append.2 ⟨_, first, path_single (.keep moved)⟩
          · rw [Nat.add_sub_cancel_left]
            have inserted : Step.Moves pair ⟨.insert, old' + count, start + count, size'⟩ _ _ := .insert (old + count)
            rw [Nat.add_right_comm start count size'] at inserted
            refine .cons inserted (.cons (.keep (Pair.same_add.1 same).2) ?_)
            rwa [Nat.add_assoc, Nat.add_assoc (start + size')]

/-- Two changes of a kind, one after the other, are one change. -/
theorem path_merge (same : previous.action = step.action) (changes : step.action ≠ .keep)
    (path : Path (Step.Moves pair) p (previous :: step :: after) r) :
    Path (Step.Moves pair) p ({ previous with count := previous.count + step.count } :: after) r := by
  obtain ⟨q, move, rest⟩ := path_cons.1 path
  obtain ⟨q', move', rest'⟩ := path_cons.1 rest
  cases move' with
  | keep _ => exact absurd rfl changes
  | delete here =>
      cases move with
      | keep _ => cases same
      | insert _ => cases same
      | delete _ =>
          refine .cons (.delete here) ?_
          rwa [← Nat.add_assoc]
  | insert here =>
      cases move with
      | keep _ => cases same
      | delete _ => cases same
      | insert _ =>
          refine .cons (.insert here) ?_
          rwa [← Nat.add_assoc]

/-- Deletions and insertions can change places. -/
theorem path_swap (changes : previous.action ≠ .keep) (changes' : step.action ≠ .keep) (differ : previous.action ≠ step.action)
    (path : Path (Step.Moves pair) p (previous :: step :: after) r) :
    Path (Step.Moves pair) p (step :: previous :: after) r := by
  obtain ⟨q, move, rest⟩ := path_cons.1 path
  obtain ⟨q', move', rest'⟩ := path_cons.1 rest
  cases move' with
  | keep _ => exact absurd rfl changes'
  | delete here =>
      cases move with
      | keep _ => exact absurd rfl changes
      | delete _ => exact absurd rfl differ
      | insert here' => exact .cons (.delete _) (.cons (.insert _) rest')
  | insert here =>
      cases move with
      | keep _ => exact absurd rfl changes
      | insert _ => exact absurd rfl differ
      | delete here' => exact .cons (.insert _) (.cons (.delete _) rest')

/-- Nothing is kept by a step over no lines. -/
theorem path_drop (is : step.action = .keep) (none : step.count = 0) (path : Path (Step.Moves pair) p (step :: after) r) :
    Path (Step.Moves pair) p after r := by
  obtain ⟨q, move, rest⟩ := path_cons.1 path
  cases move with
  | delete here => cases is
  | insert here => cases is
  | keep same =>
      cases none
      exact rest

theorem path_moveUp (changes : step.action ≠ .keep) (path : Path (Step.Moves pair) p (before.reverse ++ step :: after) r) :
    let focus := moveUp pair before step after
    focus.step.action ≠ .keep ∧ Path (Step.Moves pair) p (focus.before.reverse ++ focus.step :: focus.after) r := by
  fun_induction moveUp pair before step after with
  | case1 step after => exact ⟨changes, path⟩
  | case2 step after previous rest is count moves ih =>
      rw [reverse_cons_append] at path
      refine ih changes ?_
      rw [reverse_cons_append]
      exact path.detour fun q path => (path_slideUp is path).2 moves.1
  | case3 step after previous rest is count stays moves ih =>
      rw [reverse_cons_append] at path
      refine ih changes (path.detour fun q path => ?_)
      obtain ⟨bound, moved⟩ := path_slideUp is path
      -- the whole stretch is passed, and nothing of it is left before the change
      refine path_drop ?_ ?_ (moved moves)
      · exact is
      · exact Nat.sub_eq_zero_of_le (by omega)
  | case4 step after previous rest is count stays stays' none ih =>
      rw [reverse_cons_append] at path
      exact ih changes (path.detour fun q path => path_drop is none path)
  | case5 step after previous rest is count stays stays' filled => exact ⟨changes, path⟩
  | case6 step after previous rest isnt same ih =>
      rw [reverse_cons_append] at path
      exact ih isnt (path.detour fun q path => path_merge same changes path)
  | case7 step after previous rest isnt differ ih =>
      rw [reverse_cons_append] at path
      exact ih changes (path.detour fun q path => path_swap isnt changes differ path)

theorem path_moveDown (changes : step.action ≠ .keep) (path : Path (Step.Moves pair) p (before.reverse ++ step :: after) r) :
    let focus := moveDown pair before step after
    focus.step.action ≠ .keep ∧ Path (Step.Moves pair) p (focus.before.reverse ++ focus.step :: focus.after) r := by
  fun_induction moveDown pair before step after with
  | case1 before step => exact ⟨changes, path⟩
  | case2 before step next rest is count moves ih => exact ih changes ((path_slideDown is path).2 moves.1)
  | case3 before step next rest is count stays moves ih =>
      obtain ⟨bound, moved⟩ := path_slideDown is path
      refine ih changes ((moved moves).detour fun q path => ?_)
      obtain ⟨q', move, path⟩ := path_cons.1 path
      refine .cons move (path_drop ?_ ?_ path)
      · exact is
      · exact Nat.sub_eq_zero_of_le (by omega)
  | case4 before step next rest is count stays stays' none ih =>
      refine ih changes (path.detour fun q path => ?_)
      obtain ⟨q', move, path⟩ := path_cons.1 path
      exact .cons move (path_drop is none path)
  | case5 before step next rest is count stays stays' filled => exact ⟨changes, path⟩
  | case6 before step next rest isnt same ih =>
      exact ih changes (path.detour fun q path => path_merge same.symm isnt path)
  | case7 before step next rest isnt differ ih =>
      refine ih changes ?_
      rw [reverse_cons_append]
      exact path.detour fun q path => path_swap changes isnt (fun same => differ same.symm) path

theorem path_settleFrom {action : Action} (changes : action ≠ .keep) (rounds : Nat)
    (path : Path (Step.Moves pair) p (before.reverse ++ after) r) :
    Path (Step.Moves pair) p (settleFrom pair action rounds before after) r := by
  induction rounds generalizing before after with
  | zero => exact path
  | succ rounds ih =>
      cases after with
      | nil => rwa [List.append_nil] at path
      | cons step after =>
          rw [settleFrom]
          split
          · rename_i is
            obtain ⟨changed, up⟩ := path_moveUp (is ▸ changes) path
            obtain ⟨_, down⟩ := path_moveDown changed up
            apply ih
            rwa [reverse_cons_append]
          · apply ih
            rwa [reverse_cons_append]

/-- A settled script leads where the script led. -/
theorem path_settle (path : Path (Step.Moves pair) p steps r) : Path (Step.Moves pair) p (settle pair steps) r := by
  refine path_settleFrom (by decide) _ (path_settleFrom (by decide) _ path)

/-! Texts without a difference. -/

theorem Pair.commonHead_self (same : pair.old = pair.new) (position limit : Nat) :
    pair.commonHead position position limit = limit := by
  induction limit generalizing position with
  | zero => rfl
  | succ limit ih => rw [commonHead, same, if_pos (beq_self_eq_true _), ih]

theorem mem_some? {action : Action} {old new count : Nat} (listed : step ∈ Step.some? action old new count) :
    step.action = action ∧ count ≠ 0 := by
  unfold Step.some? at listed
  split at listed
  · cases listed
  · rename_i filled
    rw [List.mem_singleton.1 listed]
    exact ⟨rfl, filled⟩

theorem Pair.script_keeps (same : pair.old = pair.new) : ∀ step ∈ pair.script (Box.whole pair), step.action = .keep := by
  have head : (Box.whole pair).head pair = pair.old.size := by
    rw [Box.head, Box.whole, Pair.commonHead_self same, Box.width, Box.height, same, Nat.min_self, Nat.sub_zero]
  intro step listed
  rw [Pair.script] at listed
  have empty : ((Box.whole pair).core pair).width = 0 := by
    rw [Box.core, head]
    simp only [Box.width, Box.dropTail, Box.dropHead, Box.whole]
    omega
  have empty' : ((Box.whole pair).core pair).height = 0 := by
    rw [Box.core, head]
    simp only [Box.height, Box.dropTail, Box.dropHead, Box.whole, same]
    omega
  rw [if_pos (.inl empty)] at listed
  rcases List.mem_append.1 listed with earlier | last
  · rcases List.mem_append.1 earlier with first | middle
    · exact (mem_some? first).1
    · rcases List.mem_append.1 middle with deleted | inserted
      · exact absurd empty (mem_some? deleted).2
      · exact absurd empty' (mem_some? inserted).2
  · exact (mem_some? last).1

theorem settleFrom_of_keeps {action : Action} (changes : action ≠ .keep) (rounds : Nat)
    (keeps : ∀ step ∈ after, step.action = .keep) : settleFrom pair action rounds before after = before.reverse ++ after := by
  induction rounds generalizing before after with
  | zero => rfl
  | succ rounds ih =>
      cases after with
      | nil => rw [settleFrom, List.append_nil]
      | cons step after =>
          obtain ⟨here, later⟩ := List.forall_mem_cons.1 keeps
          rw [settleFrom, if_neg (by rw [here]; exact Ne.symm changes), ih later, List.reverse_cons, List.append_assoc]
          rfl

theorem settle_of_keeps (keeps : ∀ step ∈ steps, step.action = .keep) : settle pair steps = steps := by
  have once : settleAll pair .delete steps = steps := settleFrom_of_keeps (by decide) _ keeps
  rw [settle, once]
  exact settleFrom_of_keeps (by decide) _ keeps

end TraceWeave.LineDiff
