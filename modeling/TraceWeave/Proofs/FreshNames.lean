import Mathlib.Data.List.Basic
import TraceWeave.Integration.Basic

/-!
Names that a supply hands out over a whole run of requests. A request takes at most one name, what was taken stays
taken, and a fresh name is the first candidate that neither was there at the start nor was taken since.
-/
namespace TraceWeave

/-- What a supply can be asked for. -/
inductive NameRequest where
  | reserve (name : String)
  | fresh (base : String)
deriving DecidableEq, Repr

namespace NameSupply

/-- Answer one request: the name that it takes, if there is one, and the supply afterwards. -/
def serve (supply : NameSupply) : NameRequest → Option String × NameSupply
  | .reserve name => (some name, supply.reserve name)
  | .fresh base =>
      match Naming.fresh base supply with
      | (.ok name, next) => (some name, next)
      | (.error _, next) => (none, next)

/-- A supply after a run of requests. -/
def after (supply : NameSupply) : List NameRequest → NameSupply
  | [] => supply
  | request :: later => (supply.serve request).2.after later

/-- A run of requests with the name that each of them takes. -/
def log (supply : NameSupply) : List NameRequest → List (NameRequest × Option String)
  | [] => []
  | request :: later => (request, (supply.serve request).1) :: (supply.serve request).2.log later

variable {supply next : NameSupply} {base name : String}

/-! One request. -/

theorem mem_candidates : name ∈ candidates base ↔ name = base ∨ ∃ n, 1 ≤ n ∧ n ≤ maxAttempts ∧ name = base ++ toString n := by
  rw [candidates, List.mem_cons, List.mem_map]
  refine or_congr_right ⟨?_, ?_⟩
  · rintro ⟨n, inside, rfl⟩
    exact ⟨n + 1, Nat.le_add_left 1 n, List.mem_range.1 inside, rfl⟩
  · rintro ⟨n, low, high, rfl⟩
    refine ⟨n - 1, List.mem_range.2 (by omega), ?_⟩
    rw [Nat.sub_add_cancel low]

/-- A supply has no fresh name just if every candidate is taken. -/
theorem fresh_eq_error_iff {collision : NameCollision} : supply.fresh base = .error collision ↔
    collision = ⟨supply.path, base, maxAttempts⟩ ∧ base ∈ supply.taken ∧
      ∀ n, 1 ≤ n → n ≤ maxAttempts → base ++ toString n ∈ supply.taken := by
  have all : (candidates base).find? (fun name => !supply.isTaken name) = none ↔ base ∈ supply.taken ∧
      ∀ n, 1 ≤ n → n ≤ maxAttempts → base ++ toString n ∈ supply.taken := by
    simp only [List.find?_eq_none, mem_candidates, isTaken, Bool.not_eq_true', Bool.not_eq_false,
      List.contains_iff_mem]
    constructor
    · exact fun each => ⟨each base (.inl rfl), fun n low high => each _ (.inr ⟨n, low, high, rfl⟩)⟩
    · rintro ⟨first, others⟩ name (rfl | ⟨n, low, high, rfl⟩)
      · exact first
      · exact others n low high
  rw [← all]
  unfold fresh
  cases (candidates base).find? (fun name => !supply.isTaken name) with
  | none => simp [eq_comm]
  | some found => simp

/-- A fresh name is the base if that is free, and otherwise the base with the least number that makes it free. -/
theorem of_fresh_eq_ok (done : supply.fresh base = .ok (name, next)) :
    next = supply.reserve name ∧ name ∉ supply.taken ∧ (name = base ∨ base ∈ supply.taken ∧
      ∃ n, 1 ≤ n ∧ n ≤ maxAttempts ∧ name = base ++ toString n ∧
        ∀ m, 1 ≤ m → m < n → base ++ toString m ∈ supply.taken) := by
  unfold fresh at done
  split at done
  · rename_i found first
    cases done
    obtain ⟨free, place, inside, same, earlier⟩ := List.find?_eq_some_iff_getElem.1 first
    simp only [isTaken, Bool.not_not, List.contains_iff_mem] at earlier
    refine ⟨rfl, by simpa [isTaken] using free, ?_⟩
    cases place with
    | zero => exact .inl same.symm
    | succ n =>
        have base_taken : base ∈ supply.taken := earlier 0 (Nat.succ_pos n)
        have high : n < maxAttempts := by simpa [candidates] using inside
        refine .inr ⟨base_taken, n + 1, Nat.le_add_left 1 n, high, ?_, fun m low less => ?_⟩
        · rw [← same]
          simp [candidates]
        · have candidate := earlier m less
          obtain ⟨k, rfl⟩ := Nat.exists_eq_add_of_le' low
          simpa [candidates] using candidate
  · cases done

/-- A number that makes a base free, where all smaller ones do not. -/
def LeastFree (Known : String → Prop) (base : String) (n : Nat) : Prop :=
  1 ≤ n ∧ n ≤ 100 ∧ ¬ Known (base ++ toString n) ∧ ∀ m, 1 ≤ m → m < n → Known (base ++ toString m)

/-- Of two numbers that are least neither is below the other. -/
theorem LeastFree.unique {Known : String → Prop} {n m : Nat} (least : LeastFree Known base n)
    (least' : LeastFree Known base m) : n = m := by
  obtain ⟨low, _, free, smaller⟩ := least
  obtain ⟨low', _, free', smaller'⟩ := least'
  rcases Nat.lt_trichotomy n m with less | same | more
  · exact absurd (smaller' n low less) free
  · exact same
  · exact absurd (smaller m low' more) free'

theorem mem_serve (supply : NameSupply) (request : NameRequest) :
    name ∈ (supply.serve request).2.taken ↔ name ∈ supply.taken ∨ (supply.serve request).1 = some name := by
  cases request with
  | reserve other =>
      change name ∈ other :: supply.taken ↔ _ ∨ some other = some name
      rw [List.mem_cons, Option.some_inj, or_comm, eq_comm]
  | fresh base =>
      cases done : supply.fresh base with
      | error collision => simp [serve, Naming.fresh, done]
      | ok answer =>
          obtain ⟨found, next⟩ := answer
          obtain ⟨rfl, _⟩ := of_fresh_eq_ok done
          simp only [serve, Naming.fresh, done, reserve, List.mem_cons, Option.some_inj]
          rw [or_comm, eq_comm]

/-- One request for a fresh name, where a name is known if it is taken. -/
theorem fresh_answers (supply : NameSupply) (base : String) :
    let Known (name : String) : Prop := name ∈ supply.taken
    let answer := Naming.fresh base supply
    (∀ name, answer.1 = .ok name → ¬ Known name) ∧
      (¬ Known base → answer.1 = .ok base) ∧
      (Known base → ∀ name, answer.1 = .ok name ↔ ∃ n, name = base ++ toString n ∧ LeastFree Known base n) ∧
      ((∃ collision, answer.1 = .error collision) ↔
        Known base ∧ ∀ n, 1 ≤ n → n ≤ 100 → Known (base ++ toString n)) ∧
      (∀ collision, answer.1 = .error collision → collision = ⟨supply.path, base, 100⟩ ∧ answer.2 = supply) ∧
      ∀ name, name ∈ answer.2.taken ↔ Known name ∨ answer.1 = .ok name := by
  intro Known answer
  have same : answer = Naming.fresh base supply := rfl
  clear_value answer
  unfold Naming.fresh at same
  cases done : supply.fresh base with
  | error collision =>
      obtain ⟨rfl, first, others⟩ := fresh_eq_error_iff.1 done
      rw [done] at same
      subst same
      refine ⟨nofun, fun free => absurd first free, fun _ name => ⟨nofun, ?_⟩, ?_, ?_, ?_⟩
      · rintro ⟨n, _, low, high, free, _⟩
        exact absurd (others n low high) free
      · exact ⟨fun _ => ⟨first, others⟩, fun _ => ⟨_, rfl⟩⟩
      · intro _ failed
        cases failed
        exact ⟨rfl, rfl⟩
      · exact fun name => ⟨.inl, fun known => known.resolve_right nofun⟩
  | ok found =>
      obtain ⟨name, next⟩ := found
      obtain ⟨rfl, free, chosen⟩ := of_fresh_eq_ok done
      rw [done] at same
      subst same
      refine ⟨?_, ?_, ?_, ?_, nofun, ?_⟩
      · rintro _ ⟨⟩
        exact free
      · intro unknown
        rcases chosen with rfl | ⟨known, _⟩
        · rfl
        · exact absurd known unknown
      · intro known other
        rcases chosen with rfl | ⟨_, n, low, high, rfl, least⟩
        · exact absurd known free
        · constructor
          · rintro ⟨⟩
            exact ⟨n, rfl, low, high, free, least⟩
          · rintro ⟨m, rfl, other⟩
            have least : LeastFree Known base n := ⟨low, high, free, least⟩
            rw [least.unique other]
      · refine ⟨nofun, ?_⟩
        rintro ⟨known, all⟩
        rcases chosen with rfl | ⟨_, n, low, high, rfl, _⟩
        · exact absurd known free
        · exact absurd (all n low high) free
      · intro other
        simp only [reserve, List.mem_cons, Except.ok.injEq]
        rw [or_comm, eq_comm]

/-! A run of requests. -/

/-- What is taken after a run is what was taken before, and what the requests took. -/
theorem mem_after (supply : NameSupply) (requests : List NameRequest) :
    name ∈ (supply.after requests).taken ↔
      name ∈ supply.taken ∨ ∃ request, (request, some name) ∈ supply.log requests := by
  induction requests generalizing supply with
  | nil => simp [after, log]
  | cons request later ih =>
      have first : (∃ other, (other, some name) = (request, (supply.serve request).1)) ↔
          (supply.serve request).1 = some name := by
        simp only [Prod.mk.injEq, exists_eq_left, @eq_comm _ (some name)]
      simp only [after, log, ih, mem_serve, List.mem_cons, exists_or, first, or_assoc]

theorem path_serve (supply : NameSupply) (request : NameRequest) : (supply.serve request).2.path = supply.path := by
  cases request with
  | reserve name => rfl
  | fresh base =>
      cases done : supply.fresh base with
      | error collision => simp [serve, Naming.fresh, done]
      | ok answer =>
          have next := (of_fresh_eq_ok done).1
          simp [serve, Naming.fresh, done, next, reserve]

theorem path_after (supply : NameSupply) (requests : List NameRequest) : (supply.after requests).path = supply.path := by
  induction requests generalizing supply with
  | nil => rfl
  | cons request later ih => exact (ih _).trans (supply.path_serve request)

/-- Fresh names over whole runs. After any run of requests from any names to start with, a fresh name is none of the
names to start with and none that a request took; it is the base if that is free, otherwise the base with the least
number up to the limit that is free, and there is none just if all of these are taken, which leaves the supply as it
is. -/
theorem fresh_after (path : String) (names : List String) (earlier : List NameRequest) (base : String) :
    let start : NameSupply := ⟨path, names⟩
    let Known (name : String) : Prop := name ∈ names ∨ ∃ request, (request, some name) ∈ start.log earlier
    let answer := Naming.fresh base (start.after earlier)
    (∀ name, answer.1 = .ok name → ¬ Known name) ∧
      (¬ Known base → answer.1 = .ok base) ∧
      (Known base → ∀ name, answer.1 = .ok name ↔ ∃ n, name = base ++ toString n ∧ LeastFree Known base n) ∧
      ((∃ collision, answer.1 = .error collision) ↔
        Known base ∧ ∀ n, 1 ≤ n → n ≤ 100 → Known (base ++ toString n)) ∧
      (∀ collision, answer.1 = .error collision →
        collision = ⟨path, base, 100⟩ ∧ answer.2 = start.after earlier) ∧
      ∀ name, name ∈ answer.2.taken ↔ Known name ∨ answer.1 = .ok name := by
  intro start Known answer
  have taken : (· ∈ (start.after earlier).taken) = Known := funext fun name => propext (mem_after start earlier)
  have place : (start.after earlier).path = path := path_after start earlier
  have answers := fresh_answers (start.after earlier) base
  rwa [taken, place] at answers

/-- Candidates of two bases can meet. -/
example : ((⟨"main.go", ["x", "x2"]⟩ : NameSupply).log [.fresh "x", .fresh "x1", .fresh "x"]).map (·.2) =
    [some "x1", some "x11", some "x3"] := by decide +kernel

end NameSupply
end TraceWeave
