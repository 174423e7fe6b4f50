import TraceWeave.Integration.Basic

/-! Computations that may fail, and walks: one that succeeds has succeeded at every step, and one on which no
step does anything does nothing. -/
namespace TraceWeave

variable {α β ε : Type}

theorem exists_of_bind_eq_ok {first : Except ε α} {next : α → Except ε β} {result : β}
    (done : first >>= next = .ok result) : ∃ value, first = .ok value ∧ next value = .ok result := by
  cases first with
  | error failure => cases done
  | ok value => exact ⟨value, rfl, done⟩

theorem exists_of_isOk {outcome : Except ε α} (done : outcome.isOk = true) : ∃ value, outcome = .ok value := by
  cases outcome with
  | error failure => cases done
  | ok value => exact ⟨value, rfl⟩

theorem exists_of_any_toOption {outcome : Except ε α} {test : α → Bool} (passes : outcome.toOption.any test = true) :
    ∃ value, outcome = .ok value ∧ test value = true := by
  cases outcome with
  | error failure => cases passes
  | ok value => exact ⟨value, rfl, passes⟩

/-- Results of a list of steps are results of single ones. -/
theorem exists_of_mem_mapM {step : α → Except ε β} {items : List α} {results : List β} {result : β}
    (done : items.mapM step = .ok results) (member : result ∈ results) : ∃ item ∈ items, step item = .ok result := by
  induction items generalizing results with
  | nil =>
      cases done
      cases member
  | cons item items ih =>
      rw [List.mapM_cons] at done
      obtain ⟨found, first, done⟩ := exists_of_bind_eq_ok done
      obtain ⟨rest, others, done⟩ := exists_of_bind_eq_ok done
      cases done
      rcases List.mem_cons.1 member with rfl | later
      · exact ⟨item, List.mem_cons_self, first⟩
      · obtain ⟨other, listed, found⟩ := ih others later
        exact ⟨other, List.mem_cons_of_mem _ listed, found⟩

/-- A list of steps that succeeds has succeeded at each of them. -/
theorem exists_mem_of_mapM {step : α → Except ε β} {items : List α} {results : List β} {item : α}
    (done : items.mapM step = .ok results) (member : item ∈ items) : ∃ result ∈ results, step item = .ok result := by
  induction items generalizing results with
  | nil => cases member
  | cons head items ih =>
      rw [List.mapM_cons] at done
      obtain ⟨found, first, done⟩ := exists_of_bind_eq_ok done
      obtain ⟨rest, others, done⟩ := exists_of_bind_eq_ok done
      cases done
      rcases List.mem_cons.1 member with rfl | later
      · exact ⟨found, List.mem_cons_self, first⟩
      · obtain ⟨result, listed, same⟩ := ih others later
        exact ⟨result, List.mem_cons_of_mem _ listed, same⟩

theorem map_of_mapM {step : α → Except ε β} {view : β → α} {items : List α} {results : List β}
    (each : ∀ item result, step item = .ok result → view result = item) (done : items.mapM step = .ok results) :
    results.map view = items := by
  induction items generalizing results with
  | nil =>
      cases done
      rfl
  | cons item items ih =>
      rw [List.mapM_cons] at done
      obtain ⟨result, first, done⟩ := exists_of_bind_eq_ok done
      obtain ⟨rest, others, done⟩ := exists_of_bind_eq_ok done
      cases done
      rw [List.map_cons, each item result first, ih others]

/-- A list of steps fails as the first one that does. -/
theorem exists_of_mapM_eq_error {step : α → Except ε β} {items : List α} {failure : ε}
    (failed : items.mapM step = .error failure) : ∃ before item after, items = before ++ item :: after ∧
      (∀ earlier ∈ before, ∃ result, step earlier = .ok result) ∧ step item = .error failure := by
  induction items with
  | nil => cases failed
  | cons item items ih =>
      rw [List.mapM_cons] at failed
      cases first : step item with
      | error failure =>
          rw [first] at failed
          cases failed
          exact ⟨[], item, items, rfl, by simp, first⟩
      | ok result =>
          cases others : items.mapM step with
          | ok results =>
              rw [first, others] at failed
              cases failed
          | error failure =>
              rw [first, others] at failed
              cases failed
              obtain ⟨before, later, after, split, passed, stops⟩ := ih others
              exact ⟨item :: before, later, after, by rw [split]; rfl, List.forall_mem_cons.2 ⟨⟨result, first⟩, passed⟩, stops⟩

theorem keeps_of_foldlM {step : β → α → Except ε β} {holds : β → Prop} {items : List α} {start result : β}
    (each : ∀ item ∈ items, ∀ state next, holds state → step state item = .ok next → holds next) (starts : holds start)
    (done : items.foldlM step start = .ok result) : holds result := by
  induction items generalizing start with
  | nil =>
      cases done
      exact starts
  | cons item items ih =>
      rw [List.foldlM_cons] at done
      obtain ⟨state, first, rest⟩ := exists_of_bind_eq_ok done
      obtain ⟨here, each⟩ := List.forall_mem_cons.1 each
      exact ih each (here start state starts first) rest

section

variable {items : List α} {start : β}

theorem foldl_idle {step : β → α → β} (each : ∀ item ∈ items, step start item = start) :
    items.foldl step start = start :=
  List.foldlRecOn (motive := (· = start)) items step rfl fun _ same item member => same ▸ each item member

theorem foldlM_idle {m : Type → Type} [Monad m] [LawfulMonad m] {step : β → α → m β}
    (each : ∀ item ∈ items, step start item = pure start) : items.foldlM step start = pure start := by
  induction items with
  | nil => rfl
  | cons item items ih =>
      obtain ⟨here, each⟩ := List.forall_mem_cons.1 each
      rw [List.foldlM_cons, here, pure_bind]
      exact ih each

end

namespace Naming

variable {supply supply' : NameSupply}

theorem bind_eq_ok {first : Naming α} {next : α → Naming β} {result : β}
    (done : (first >>= next) supply = (.ok result, supply')) :
    ∃ value middle, first supply = (.ok value, middle) ∧ next value middle = (.ok result, supply') := by
  change ExceptT.bindCont next (first supply).1 (first supply).2 = (.ok result, supply') at done
  cases outcome : first supply with
  | mk answer middle =>
      rw [outcome] at done
      cases answer with
      | ok value => exact ⟨value, middle, rfl, done⟩
      | error collision => cases done

theorem pure_eq_ok {value result : α} (done : (pure value : Naming α) supply = (.ok result, supply')) :
    result = value := by
  cases done
  rfl

/-- What every step of a walk keeps holds at its end. -/
theorem foldlM_keeps {step : β → α → Naming β} {holds : β → Prop} {items : List α} {start result : β}
    (each : ∀ item ∈ items, ∀ state supply next supply',
      holds state → step state item supply = (.ok next, supply') → holds next)
    (starts : holds start) (done : (items.foldlM step start) supply = (.ok result, supply')) : holds result := by
  induction items generalizing start supply with
  | nil =>
      cases pure_eq_ok done
      exact starts
  | cons item items ih =>
      rw [List.foldlM_cons] at done
      obtain ⟨state, middle, first, rest⟩ := bind_eq_ok done
      obtain ⟨here, each⟩ := List.forall_mem_cons.1 each
      exact ih each (here start supply state middle starts first) rest

/-- What one step of a walk brings about and the others keep holds at its end. -/
theorem foldlM_meets {step : β → α → Naming β} {always holds : β → Prop} {items : List α} {item : α}
    {start result : β} (member : item ∈ items)
    (each : ∀ item ∈ items, ∀ state supply next supply', always state → step state item supply = (.ok next, supply') →
      always next ∧ (holds state → holds next))
    (makes : ∀ state supply next supply', always state → step state item supply = (.ok next, supply') → holds next)
    (starts : always start) (done : (items.foldlM step start) supply = (.ok result, supply')) : holds result := by
  induction items generalizing start supply with
  | nil => cases member
  | cons head items ih =>
      rw [List.foldlM_cons] at done
      obtain ⟨state, middle, first, rest⟩ := bind_eq_ok done
      obtain ⟨here, others⟩ := List.forall_mem_cons.1 each
      have next := (here start supply state middle starts first).1
      rcases List.mem_cons.1 member with rfl | later
      · have made := makes start supply state middle starts first
        have keeps : ∀ other ∈ items, ∀ state supply after supply', (always state ∧ holds state) →
            step state other supply = (.ok after, supply') → always after ∧ holds after := by
          intro other listed state supply after supply' before stepped
          obtain ⟨stays, keeps⟩ := others other listed state supply after supply' before.1 stepped
          exact ⟨stays, keeps before.2⟩
        exact (foldlM_keeps keeps ⟨next, made⟩ rest).2
      · exact ih later others next rest

end Naming
end TraceWeave
