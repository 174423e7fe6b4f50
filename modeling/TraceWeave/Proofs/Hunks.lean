import Mathlib.Data.List.Forall2
import TraceWeave.Patch.Hunk
import TraceWeave.Proofs.LineDiff

/-!
Hunks of a difference. The changes of two texts lead through both of them. With every change put where it
stands, hunks follow each other with kept lines between them; a change that is not where it stands shows only
in the headers.
-/
namespace TraceWeave

namespace LineDiff.Change

/-- What a change does. Where it is in a text matters only if it has lines there. -/
structure Moves (pair : Pair) (change : Change) (p q : Point) : Prop where
  old : change.oldCount ≠ 0 → change.old = p.1
  new : change.newCount ≠ 0 → change.new = p.2
  kept : change.kept = true → change.newCount = change.oldCount ∧ pair.Same p.1 p.2 change.oldCount
  stop : q = (p.1 + change.oldCount, p.2 + change.newCount)

variable {pair : Pair} {p q r : Point} {first second : Change} {changes : List Change}

theorem moves_ofStep {step : Step} (move : step.Moves pair p q) : (ofStep step).Moves pair p q := by
  cases move with
  | keep same => exact ⟨fun _ => rfl, fun _ => rfl, fun _ => ⟨rfl, same⟩, rfl⟩
  | delete here => exact ⟨fun _ => rfl, fun filled => absurd rfl filled, fun kept => Bool.noConfusion kept, rfl⟩
  | insert here => exact ⟨fun filled => absurd rfl filled, fun _ => rfl, fun kept => Bool.noConfusion kept, rfl⟩

theorem Moves.join (alike : first.kept = second.kept) (move : first.Moves pair p q) (move' : second.Moves pair q r) :
    (first.join second).Moves pair p r := by
  have stop := move.stop
  subst stop
  have old := move'.old
  have new := move'.new
  refine ⟨?_, ?_, ?_, ?_⟩
  · intro filled
    dsimp only [Change.join] at filled ⊢
    split
    · rename_i later
      rw [old later.2, later.1, Nat.add_zero]
    · exact move.old (by omega)
  · intro filled
    dsimp only [Change.join] at filled ⊢
    split
    · rename_i later
      rw [new later.2, later.1, Nat.add_zero]
    · exact move.new (by omega)
  · intro kept
    obtain ⟨count, same⟩ := move.kept kept
    obtain ⟨count', same'⟩ := move'.kept (alike ▸ kept)
    rw [count] at same'
    exact ⟨by rw [Change.join, count, count'], Pair.same_add.2 ⟨same, same'⟩⟩
  · rw [move'.stop, Change.join, Nat.add_assoc, Nat.add_assoc]

theorem path_ofSteps {steps : List Step} (path : Path (Step.Moves pair) p steps r) :
    Path (Moves pair) p (ofSteps steps) r := by
  induction path with
  | nil p => exact .nil p
  | cons move _ ih =>
      change Path (Moves pair) _ (prepend _ (ofSteps _)) _
      unfold prepend
      split
      · rename_i none
        rw [none] at ih
        exact .cons (moves_ofStep move) ih
      · rename_i next rest found
        rw [found] at ih
        split
        · rename_i alike
          obtain ⟨q, move', rest⟩ := path_cons.1 ih
          exact .cons ((moves_ofStep move).join alike move') rest
        · exact .cons (moves_ofStep move) ih

/-- The difference of two texts leads from their starts to their ends. -/
theorem path_changes (pair : Pair) : Path (Moves pair) (0, 0) pair.changes (pair.old.size, pair.new.size) :=
  path_ofSteps (path_settle (pair.path_script (Box.whole pair) (Nat.zero_le _) (Nat.zero_le _)))

theorem kept_of_ofSteps {steps : List Step} (keeps : ∀ step ∈ steps, step.action = .keep) :
    ∀ change ∈ ofSteps steps, change.kept = true := by
  induction steps with
  | nil => simp [ofSteps]
  | cons step steps ih =>
      obtain ⟨here, later⟩ := List.forall_mem_cons.1 keeps
      have first : (ofStep step).kept = true := by rw [ofStep, here]
      have rest := ih later
      change ∀ change ∈ prepend (ofStep step) (ofSteps steps), _
      unfold prepend
      split
      · exact List.forall_mem_singleton.2 first
      · rename_i next others found
        rw [found, List.forall_mem_cons] at rest
        split
        · exact List.forall_mem_cons.2 ⟨first, rest.2⟩
        · exact List.forall_mem_cons.2 ⟨first, List.forall_mem_cons.2 rest⟩

/-- Where nothing differs, everything is kept. -/
theorem kept_changes (same : pair.old = pair.new) : ∀ change ∈ pair.changes, change.kept = true := by
  rw [Pair.changes, settle_of_keeps (Pair.script_keeps same)]
  exact kept_of_ofSteps (Pair.script_keeps same)

/-- Changes put where they stand. -/
def place (p : Point) : List Change → List Change
  | [] => []
  | change :: changes =>
      { change with old := p.1, new := p.2 } :: place (p.1 + change.oldCount, p.2 + change.newCount) changes

/-- What a change does that is where it stands. -/
structure Runs (pair : Pair) (change : Change) (p q : Point) : Prop where
  old : change.old = p.1
  new : change.new = p.2
  kept : change.kept = true → change.newCount = change.oldCount ∧ pair.Same p.1 p.2 change.oldCount
  stop : q = (p.1 + change.oldCount, p.2 + change.newCount)

theorem path_place (path : Path (Moves pair) p changes r) : Path (Runs pair) p (place p changes) r := by
  induction path with
  | nil p => exact .nil p
  | cons move _ ih =>
      rw [place, ← move.stop]
      exact .cons ⟨rfl, rfl, move.kept, move.stop⟩ ih

/-- Changes with the same lines. -/
structure Alike (first second : Change) : Prop where
  kept : first.kept = second.kept
  oldCount : first.oldCount = second.oldCount
  newCount : first.newCount = second.newCount
  old : first.oldCount ≠ 0 → first.old = second.old
  new : first.newCount ≠ 0 → first.new = second.new
  even : first.kept = true → first.newCount = first.oldCount

theorem alike_place (path : Path (Moves pair) p changes r) : List.Forall₂ Alike changes (place p changes) := by
  induction path with
  | nil p => exact .nil
  | cons move _ ih =>
      rw [place, ← move.stop]
      exact .cons ⟨rfl, rfl, rfl, move.old, move.new, fun kept => (move.kept kept).1⟩ ih

end LineDiff.Change

open LineDiff (Change Pair Point Path)
open LineDiff.Change (Runs Alike)

namespace Hunk

variable {pair : Pair} {p q r : Point} {first second change : Change} {changes changes' : List Change} {hunks : List Hunk}
  {context : Nat}

/-! Changes with the same lines give hunks with the same lines. -/

theorem alike_lastLines (alike : Alike first second) : Alike (lastLines context first) (lastLines context second) := by
  obtain ⟨kept, oldCount, newCount, old, new, even⟩ := alike
  unfold lastLines
  rw [← kept, ← oldCount, ← newCount]
  dsimp only
  split
  · rename_i is
    have count := even is
    refine ⟨rfl, rfl, rfl, fun filled => ?_, fun filled => ?_, fun _ => ?_⟩
    · rw [old (by dsimp only at filled; omega)]
    · rw [new (by dsimp only at filled; omega)]
    · rw [count]
  · exact ⟨kept, oldCount, newCount, old, new, even⟩

theorem alike_firstLines (alike : Alike first second) : Alike (firstLines context first) (firstLines context second) := by
  obtain ⟨kept, oldCount, newCount, old, new, even⟩ := alike
  unfold firstLines
  rw [← kept, ← oldCount, ← newCount]
  dsimp only
  split
  · rename_i is
    have count := even is
    refine ⟨rfl, rfl, rfl, fun filled => ?_, fun filled => ?_, fun _ => ?_⟩
    · exact old (by dsimp only at filled; omega)
    · exact new (by dsimp only at filled; omega)
    · rw [count]
  · exact ⟨kept, oldCount, newCount, old, new, even⟩

theorem alike_trimStart (alike : List.Forall₂ Alike changes changes') :
    List.Forall₂ Alike (trimStart context changes) (trimStart context changes') := by
  cases alike with
  | nil => exact .nil
  | cons head rest => exact .cons (alike_lastLines head) rest

theorem alike_trimEnd (alike : List.Forall₂ Alike changes changes') :
    List.Forall₂ Alike (trimEnd context changes) (trimEnd context changes') := by
  induction alike with
  | nil => exact .nil
  | cons head rest ih =>
      cases rest with
      | nil => exact .cons (alike_firstLines head) .nil
      | cons next rest => exact .cons head ih

theorem alike_cut (alike : List.Forall₂ Alike changes changes') :
    List.Forall₂ (List.Forall₂ Alike) (cut context changes) (cut context changes') := by
  induction alike with
  | nil => exact .cons .nil .nil
  | @cons change change' _ _ head _ ih =>
      have same : divides context change = divides context change' := by
        rw [divides, divides, head.kept, head.oldCount]
      rw [cut, cut, same]
      generalize cut context _ = hunks at ih
      generalize cut context _ = hunks' at ih
      split
      · cases ih with
        | nil => exact .cons (.cons (alike_firstLines head) .nil) .nil
        | cons hunk rest =>
            exact .cons (.cons (alike_firstLines head) .nil) (.cons (.cons (alike_lastLines head) hunk) rest)
      · cases ih with
        | nil => exact .cons (.cons head .nil) .nil
        | cons hunk rest => exact .cons (.cons head hunk) rest

theorem isIdle_congr (alike : List.Forall₂ Alike changes changes') : isIdle changes = isIdle changes' := by
  induction alike with
  | nil => rfl
  | cons head _ ih =>
      rw [isIdle, isIdle, List.all_cons, List.all_cons, head.kept]
      exact congrArg _ ih

theorem alike_ofChanges (alike : List.Forall₂ Alike changes changes') :
    List.Forall₂ (List.Forall₂ Alike) (ofChanges context changes) (ofChanges context changes') := by
  have parts : List.Forall₂ (List.Forall₂ Alike) (cut context (trimEnd context (trimStart context changes)))
      (cut context (trimEnd context (trimStart context changes'))) := alike_cut (alike_trimEnd (alike_trimStart alike))
  unfold ofChanges
  generalize cut context (trimEnd context (trimStart context changes)) = hunks at parts ⊢
  generalize cut context (trimEnd context (trimStart context changes')) = hunks' at parts ⊢
  induction parts with
  | nil => exact .nil
  | cons head rest ih =>
      rw [List.filter_cons, List.filter_cons, isIdle_congr head]
      split
      · exact .cons head ih
      · exact ih

/-! Hunks of changes that are where they stand. -/

/-- Hunks one after the other, with lines between them that are the same in both texts. -/
inductive Lies (pair : Pair) (r : Point) : Point → List Hunk → Prop
  | nil : Lies pair r r []
  | skip {p : Point} {hunks : List Hunk} (count : Nat) (same : pair.Same p.1 p.2 count)
      (rest : Lies pair r (p.1 + count, p.2 + count) hunks) : Lies pair r p hunks
  | hunk {p q : Point} {hunk : Hunk} {hunks : List Hunk} (path : Path (Runs pair) p hunk q) (rest : Lies pair r q hunks) :
      Lies pair r p (hunk :: hunks)

/-- The texts go on as the same after the last hunk. -/
theorem Lies.extend {count : Nat} (lies : Lies pair r p hunks) (same : pair.Same r.1 r.2 count) :
    Lies pair (r.1 + count, r.2 + count) p hunks := by
  induction lies with
  | nil => exact .skip count same .nil
  | skip count' same' _ ih => exact .skip count' same' ih
  | hunk path _ ih => exact .hunk path ih

/-- A hunk without changes is passed over. -/
theorem Lies.pass {hunk : Hunk} (idle : isIdle hunk = true) (path : Path (Runs pair) p hunk q) (lies : Lies pair r q hunks) :
    Lies pair r p hunks := by
  induction path with
  | nil p => exact lies
  | @cons change _ p q _ move _ ih =>
      rw [isIdle, List.all_cons, Bool.and_eq_true] at idle
      obtain ⟨count, same⟩ := move.kept idle.1
      refine .skip change.oldCount same ?_
      have later := ih idle.2 lies
      rwa [move.stop, count] at later

theorem Lies.filter (lies : Lies pair r p hunks) : Lies pair r p (hunks.filter fun hunk => !hunk.isIdle) := by
  induction lies with
  | nil => exact .nil
  | skip count same _ ih => exact .skip count same ih
  | @hunk _ _ hunk _ path _ ih =>
      rw [List.filter_cons]
      split
      · exact .hunk path ih
      · rename_i idle
        exact .pass (by simpa using idle) path ih

theorem runs_firstLines (run : Runs pair change p q) (kept : change.kept = true) :
    Runs pair (firstLines context change) p (p.1 + min change.oldCount context, p.2 + min change.oldCount context) := by
  obtain ⟨count, same⟩ := run.kept kept
  unfold firstLines
  rw [if_pos kept, count, show change.oldCount - (change.oldCount - context) = min change.oldCount context by omega]
  refine ⟨run.old, run.new, fun _ => ⟨rfl, ?_⟩, rfl⟩
  intro i bound
  dsimp only at bound
  exact same i (by omega)

theorem runs_lastLines (run : Runs pair change p q) (kept : change.kept = true) :
    Runs pair (lastLines context change) (p.1 + (change.oldCount - context), p.2 + (change.oldCount - context)) q := by
  obtain ⟨count, same⟩ := run.kept kept
  have parts : change.oldCount = change.oldCount - context + (change.oldCount - (change.oldCount - context)) := by omega
  unfold lastLines
  rw [if_pos kept, count, run.old, run.new]
  refine ⟨rfl, rfl, fun _ => ⟨rfl, ?_⟩, ?_⟩
  · rw [parts] at same
    exact (LineDiff.Pair.same_add.1 same).2
  · rw [run.stop, count]
    ext
    · dsimp only
      omega
    · dsimp only
      omega

theorem path_cut (context : Nat) (path : Path (Runs pair) p changes r) :
    ∃ hunk hunks q, cut context changes = hunk :: hunks ∧ Path (Runs pair) p hunk q ∧ Lies pair r q hunks := by
  induction path with
  | nil p => exact ⟨[], [], p, rfl, .nil p, .nil⟩
  | @cons change _ p q r run _ ih =>
      obtain ⟨hunk, hunks, stop, found, path, lies⟩ := ih
      rw [cut, found]
      split
      · rename_i divides
        rw [Hunk.divides, Bool.and_eq_true, decide_eq_true_eq] at divides
        obtain ⟨kept, long⟩ := divides
        obtain ⟨count, same⟩ := run.kept kept
        refine ⟨_, _, _, rfl, LineDiff.path_single (runs_firstLines run kept), ?_⟩
        -- between the two parts stand the lines that neither of them takes
        refine .skip (change.oldCount - context - context) ?_ (.hunk (.cons ?_ path) lies)
        · intro i bound
          have here := same (min change.oldCount context + i) (by omega)
          rwa [← Nat.add_assoc, ← Nat.add_assoc] at here
        · have last : Runs pair (lastLines context change) _ q := runs_lastLines run kept
          rwa [show change.oldCount - context =
            min change.oldCount context + (change.oldCount - context - context) by omega, ← Nat.add_assoc, ← Nat.add_assoc] at last
      · exact ⟨_, _, _, rfl, .cons run path, lies⟩

/-- Kept lines that are left out at the start. -/
theorem path_trimStart (context : Nat) (path : Path (Runs pair) p changes r) :
    ∃ count, pair.Same p.1 p.2 count ∧ Path (Runs pair) (p.1 + count, p.2 + count) (trimStart context changes) r := by
  cases path with
  | nil => exact ⟨0, fun i bound => absurd bound (Nat.not_lt_zero i), .nil _⟩
  | @cons change _ _ q _ run rest =>
      by_cases kept : change.kept = true
      · refine ⟨change.oldCount - context, ?_, .cons (runs_lastLines run kept) rest⟩
        exact fun i bound => (run.kept kept).2 i (by omega)
      · refine ⟨0, fun i bound => absurd bound (Nat.not_lt_zero i), ?_⟩
        rw [trimStart, lastLines, if_neg kept]
        exact .cons run rest

/-- Kept lines that are left out at the end. -/
theorem path_trimEnd (context : Nat) (path : Path (Runs pair) p changes r) :
    ∃ q count, Path (Runs pair) p (trimEnd context changes) q ∧ pair.Same q.1 q.2 count ∧
      r = (q.1 + count, q.2 + count) := by
  induction path with
  | nil p => exact ⟨p, 0, .nil p, fun i bound => absurd bound (Nat.not_lt_zero i), rfl⟩
  | @cons change changes p q r run rest ih =>
      cases rest with
      | nil =>
          by_cases kept : change.kept = true
          · obtain ⟨count, same⟩ := run.kept kept
            refine ⟨_, change.oldCount - context, LineDiff.path_single (runs_firstLines run kept), ?_, ?_⟩
            · intro i bound
              have here := same (min change.oldCount context + i) (by omega)
              rwa [← Nat.add_assoc, ← Nat.add_assoc] at here
            · rw [run.stop, count]
              ext
              · dsimp only
                omega
              · dsimp only
                omega
          · refine ⟨q, 0, ?_, fun i bound => absurd bound (Nat.not_lt_zero i), rfl⟩
            rw [trimEnd, firstLines, if_neg kept]
            exact LineDiff.path_single run
      | cons run' rest' =>
          obtain ⟨stop, count, path, same, final⟩ := ih
          exact ⟨stop, count, .cons run path, same, final⟩

/-- The hunks of a difference lie one after the other in both texts. -/
theorem lies_ofChanges (path : Path (Runs pair) p changes r) : Lies pair r p (ofChanges context changes) := by
  obtain ⟨before, same, begun⟩ := path_trimStart context path
  obtain ⟨stop, after, ended, same', rfl⟩ := path_trimEnd context begun
  obtain ⟨hunk, hunks, q, found, first, lies⟩ := path_cut context ended
  rw [ofChanges, found]
  exact .skip before same ((Lies.hunk first lies).filter.extend same')

theorem ne_nil_of_mem_ofChanges {hunk : Hunk} (listed : hunk ∈ ofChanges context changes) : hunk ≠ [] := by
  rintro rfl
  simpa [isIdle] using (List.mem_filter.1 listed).2

/-! Kept lines alone make no hunk. -/

theorem kept_lastLines (kept : change.kept = true) : (lastLines context change).kept = true := by
  rw [lastLines, if_pos kept]
  exact kept

theorem kept_firstLines (kept : change.kept = true) : (firstLines context change).kept = true := by
  rw [firstLines, if_pos kept]
  exact kept

theorem kept_trimStart (keeps : ∀ change ∈ changes, change.kept = true) :
    ∀ change ∈ trimStart context changes, change.kept = true := by
  cases changes with
  | nil => exact keeps
  | cons change rest =>
      obtain ⟨here, later⟩ := List.forall_mem_cons.1 keeps
      exact List.forall_mem_cons.2 ⟨kept_lastLines here, later⟩

theorem kept_trimEnd (keeps : ∀ change ∈ changes, change.kept = true) :
    ∀ change ∈ trimEnd context changes, change.kept = true := by
  fun_induction trimEnd context changes with
  | case1 => exact keeps
  | case2 change => exact List.forall_mem_singleton.2 (kept_firstLines (keeps change List.mem_cons_self))
  | case3 change rest _ ih =>
      obtain ⟨here, later⟩ := List.forall_mem_cons.1 keeps
      exact List.forall_mem_cons.2 ⟨here, ih later⟩

theorem isIdle_cut (keeps : ∀ change ∈ changes, change.kept = true) : ∀ hunk ∈ cut context changes, isIdle hunk = true := by
  induction changes with
  | nil => exact List.forall_mem_singleton.2 rfl
  | cons change rest ih =>
      obtain ⟨here, later⟩ := List.forall_mem_cons.1 keeps
      have idle := ih later
      have first : isIdle [firstLines context change] = true := by simp [isIdle, kept_firstLines here]
      rw [cut]
      generalize cut context rest = hunks at idle
      split
      · cases hunks with
        | nil => exact List.forall_mem_singleton.2 first
        | cons hunk hunks =>
            obtain ⟨head, tail⟩ := List.forall_mem_cons.1 idle
            refine List.forall_mem_cons.2 ⟨first, List.forall_mem_cons.2 ⟨?_, tail⟩⟩
            exact Bool.and_eq_true_iff.2 ⟨kept_lastLines here, head⟩
      · cases hunks with
        | nil => exact List.forall_mem_singleton.2 (by simp [isIdle, here])
        | cons hunk hunks =>
            obtain ⟨head, tail⟩ := List.forall_mem_cons.1 idle
            exact List.forall_mem_cons.2 ⟨Bool.and_eq_true_iff.2 ⟨here, head⟩, tail⟩

theorem ofChanges_of_kept (keeps : ∀ change ∈ changes, change.kept = true) : ofChanges context changes = [] := by
  rw [ofChanges, List.filter_eq_nil_iff]
  intro hunk listed
  simp [isIdle_cut (kept_trimEnd (kept_trimStart keeps)) hunk listed]

end Hunk
end TraceWeave
