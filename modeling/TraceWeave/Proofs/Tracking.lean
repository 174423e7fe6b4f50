import TraceWeave.Integration.Template
import TraceWeave.Proofs.InjectBatch

/-!
Names that are carried forward through a block. A statement that gets code may introduce a binding, and the
binding is in force from the next statement on, up to and including the first one that assigns its name. What
a block gets is the code for its statements and, before it, what the bindings in force mean for each of them.
-/
namespace TraceWeave

open Go (Node Place)
open Go.Node (Annotated)
open Go.Place (Below Inside)

/-- All uses of a name are arguments of the only call of a statement. -/
def NameUses.AreArguments (source name : String) (statement : Node) : Prop :=
  ∃ call, statement.soleCall? = some call ∧
    ∀ use ∈ identifiers source name statement, ∃ argument ∈ call.callArguments, use.isSame argument = true

namespace Binding

/-- The finding about a statement that goes on with the old value. -/
def ambiguity (binding : Binding) (path : String) (line : Nat) : Diagnostic :=
  let mark := String.singleton (Char.ofNat 96)
  .onLine .injectionAmbiguity path line
    (mark ++ binding.name ++ mark ++
      " is used in a statement that is not rewritten; it still refers to the unwrapped value instead of " ++
      mark ++ binding.replacement ++ mark)

/-- What a binding in force does to a statement: all uses of the name get the new one, or none does and there
is one finding. -/
structure Settles (binding : Binding) (path source : String) (line : Nat) (statement : Node)
    (outcome : List Edit × List Diagnostic) : Prop where
  unused : NameUses.identifiers source binding.name statement = [] → outcome = ([], [])
  renamed : NameUses.identifiers source binding.name statement ≠ [] →
    NameUses.AreArguments source binding.name statement →
      outcome = ((NameUses.identifiers source binding.name statement).map fun use =>
        Edit.replaceNode use binding.replacement, [])
  noted : NameUses.identifiers source binding.name statement ≠ [] →
    ¬ NameUses.AreArguments source binding.name statement → outcome = ([], [binding.ambiguity path line])

theorem settles_carryOver (binding : Binding) (path source : String) (line : Nat) (statement : Node) :
    binding.Settles path source line statement (binding.carryOver path source line statement) := by
  unfold carryOver NameUses.ofStatement
  dsimp only
  by_cases none : NameUses.identifiers source binding.name statement = []
  · rw [none]
    exact ⟨fun _ => rfl, fun some => absurd none some, fun some => absurd none some⟩
  rw [if_neg (by simpa using none)]
  cases found : statement.soleCall? with
  | none =>
      refine ⟨fun empty => absurd empty none, fun _ arguments => ?_, fun _ _ => rfl⟩
      obtain ⟨call, other, _⟩ := arguments
      cases found.symm.trans other
  | some call =>
      have meaning : ((NameUses.identifiers source binding.name statement).all fun use =>
          call.callArguments.any use.isSame) = true ↔ NameUses.AreArguments source binding.name statement := by
        simp only [NameUses.AreArguments, found, Option.some.injEq, exists_eq_left', List.all_eq_true, List.any_eq_true]
      dsimp only
      by_cases each : NameUses.AreArguments source binding.name statement
      · rw [if_pos (meaning.2 each)]
        exact ⟨fun empty => absurd empty none, fun _ _ => rfl, fun _ contrary => absurd each contrary⟩
      · rw [if_neg (mt meaning.1 each)]
        exact ⟨fun empty => absurd empty none, fun _ contrary => absurd contrary each, fun _ _ => rfl⟩

/-- No statement of a list assigns the name. -/
def lasts (source : String) (statements : List Node) (binding : Binding) : Bool :=
  statements.all fun statement => !(statement.assignedNames source).contains binding.name

/-- The bindings in force at a statement of a block, of which `introduced` tells the ones that each statement
introduces: those from earlier statements, as long as no statement in between assigns the name. -/
def inForce (source : String) (statements : List Node) (introduced : List (List Binding)) (position : Nat) :
    List Binding :=
  (List.range position).flatMap fun earlier =>
    (introduced.getD earlier []).filter (lasts source ((statements.take position).drop (earlier + 1)))

variable {source : String} {statements : List Node} {introduced : List (List Binding)} {position : Nat}
  {binding : Binding} {bindings : List Binding}

theorem remaining_eq (source : String) (statement : Node) (bindings : List Binding) :
    remaining source statement bindings = bindings.filter (lasts source [statement]) := by
  refine congrArg (List.filter · bindings) (funext fun binding => ?_)
  simp [lasts]

/-- What is in force at a statement of the rest of a block, if `bindings` are in force at its start. -/
def held (source : String) (bindings : List Binding) (statements : List Node) (introduced : List (List Binding))
    (position : Nat) : List Binding :=
  bindings.filter (lasts source (statements.take position)) ++ inForce source statements introduced position

theorem held_nil : held source [] statements introduced = inForce source statements introduced := rfl

theorem held_zero : held source bindings statements introduced 0 = bindings := by
  simp [held, inForce, lasts]

theorem held_succ (statement : Node) (added : List Binding) :
    held source bindings (statement :: statements) (added :: introduced) (position + 1) =
      held source (remaining source statement bindings ++ added) statements introduced position := by
  have both : lasts source (statement :: statements.take position) = fun binding =>
      lasts source (statements.take position) binding && lasts source [statement] binding := by
    funext binding
    simp [lasts, Bool.and_comm]
  rw [held, held, List.take_succ_cons, both, remaining_eq, List.filter_append, List.filter_filter, inForce, inForce,
    List.range_succ_eq_map, List.flatMap_cons, List.flatMap_map, ← List.append_assoc]
  simp

theorem mem_inForce : binding ∈ inForce source statements introduced position ↔ ∃ earlier < position,
    binding ∈ introduced.getD earlier [] ∧ ∀ statement ∈ (statements.take position).drop (earlier + 1),
      binding.name ∉ statement.assignedNames source := by
  simp [inForce, lasts]

end Binding

/-- A computation after one that succeeds. -/
theorem Naming.bind_of_ok {α β : Type} {first : Naming α} {later : α → Naming β} {value : α}
    {supply middle : NameSupply} (done : first supply = (.ok value, middle)) :
    (first >>= later) supply = later value middle := by
  change ExceptT.bindCont later (first supply).1 (first supply).2 = _
  rw [done]
  rfl

/-- Integrations of which a binding renames a variable that the statement assigns. -/
def Integration.Rebinds (integration : Integration) : Prop :=
  ∀ view names supply injection supply', integration.accepts view = true →
    integration.generate view names supply = (.ok injection, supply') →
      ∀ binding ∈ injection.binding.toList, binding.name ∈ view.node.assignedNames view.source

/-- A catalog of built-in integrations and of rules. -/
def Catalog.IsSupplied (catalog : Catalog) : Prop :=
  ∀ integration ∈ catalog, integration ∈ builtIn ∨ ∃ rule : Template, integration = rule.toIntegration

theorem Slog.rebinds : Slog.integration.Rebinds := by
  intro view names supply injection supply' accepted generated
  obtain ⟨name, middle, _, generated⟩ := Naming.bind_eq_ok generated
  cases Naming.pure_eq_ok generated
  obtain ⟨handler, named⟩ := Option.isSome_iff_exists.1 accepted
  rw [Option.toList_some, List.forall_mem_singleton, named]
  exact Slog.mem_of_handler? named

theorem Gin.rebinds : Gin.integration.Rebinds := by
  intro view names supply injection supply' _ generated
  cases Naming.pure_eq_ok generated
  simp

theorem Http.rebinds_server : Http.server.Rebinds := by
  intro view names supply injection supply' _ generated
  rcases Setup.generateServer_cases view with nothing | ⟨call, function, wrapper, first, last, _, _, made⟩
  · cases (nothing names supply).symm.trans generated
    simp
  · cases (made names supply).symm.trans generated
    simp

theorem Http.rebinds_client : Http.client.Rebinds := by
  intro view names supply injection supply' _ generated
  change Http.generateClient view names supply = _ at generated
  unfold Http.generateClient at generated
  cases found : Http.request? view with
  | none =>
      rw [found] at generated
      cases Naming.pure_eq_ok generated
      simp
  | some function =>
      rw [found] at generated
      obtain ⟨segment, middle, _, generated⟩ := Naming.bind_eq_ok generated
      cases Naming.pure_eq_ok generated
      simp

theorem Template.rebinds (rule : Template) : rule.toIntegration.Rebinds := by
  intro view names supply injection supply' _ generated
  obtain ⟨text, middle, _, generated⟩ := Naming.bind_eq_ok generated
  obtain ⟨⟨text', bound⟩, middle', filled, generated⟩ := Naming.bind_eq_ok generated
  have same : injection.binding = bound := by
    dsimp only at generated
    cases place : rule.placement with
    | none =>
        rw [place] at generated
        cases Naming.pure_eq_ok generated
        rfl
    | some placement =>
        rw [place] at generated
        cases Naming.pure_eq_ok generated
        rfl
  rw [same]
  unfold Template.fillBinding at filled
  cases binds : rule.bind with
  | none =>
      rw [binds] at filled
      cases Naming.pure_eq_ok filled
      simp
  | some before =>
      rw [binds] at filled
      dsimp only at filled
      by_cases bare : ((view.node.assignedNames view.source).head?.getD "" == "") = true
      · rw [if_pos bare] at filled
        cases Naming.pure_eq_ok filled
        simp
      · rw [if_neg bare] at filled
        obtain ⟨name, _, _, filled⟩ := Naming.bind_eq_ok filled
        cases Naming.pure_eq_ok filled
        rw [Option.toList_some, List.forall_mem_singleton]
        cases assigned : (view.node.assignedNames view.source).head? with
        | none =>
            rw [assigned] at bare
            exact absurd rfl bare
        | some first => exact List.mem_of_head? assigned

theorem Catalog.IsSupplied.rebinds {catalog : Catalog} (supplied : catalog.IsSupplied) :
    ∀ integration ∈ catalog, integration.Rebinds := by
  intro integration member
  rcases supplied integration member with listed | ⟨rule, rfl⟩
  · simp only [builtIn, List.mem_cons, List.not_mem_nil, or_false] at listed
    rcases listed with rfl | rfl | rfl | rfl
    · exact Slog.rebinds
    · exact Gin.rebinds
    · exact Http.rebinds_server
    · exact Http.rebinds_client
  · exact rule.rebinds

/-- What bindings mean for a statement. -/
def InjectionSite.carried (site : InjectionSite) (bindings : List Binding) (statement : Node) :
    List (List Edit × List Diagnostic) :=
  bindings.map (Binding.carryOver site.source.path site.source.text (site.source.nodeLine statement) statement)

/-- What the bindings in force mean for a statement of the rest of a block. -/
def InjectionSite.turn (site : InjectionSite) (bindings : List Binding) (statements : List Node)
    (introduced : List (List Binding)) (position : Nat) : List (List Edit × List Diagnostic) :=
  statements[position]?.toList.flatMap
    (site.carried (Binding.held site.source.text bindings statements introduced position))

section
variable {site : InjectionSite} {bindings added : List Binding} {statement : Node} {statements : List Node}
  {introduced : List (List Binding)}

theorem InjectionSite.turn_zero :
    site.turn bindings (statement :: statements) introduced 0 = site.carried bindings statement := by
  simp [turn, Binding.held_zero]

theorem InjectionSite.turn_succ (position : Nat) :
    site.turn bindings (statement :: statements) (added :: introduced) (position + 1) =
      site.turn (Binding.remaining site.source.text statement bindings ++ added) statements introduced position := by
  rw [turn, Binding.held_succ, List.getElem?_cons_succ, turn]

theorem FilePlan.addSeed_edits (plan : FilePlan) (key : FunctionKey) : (plan.addSeed key).edits = plan.edits := by
  unfold addSeed
  split <;> rfl

theorem FilePlan.addSeed_notes (plan : FilePlan) (key : FunctionKey) : (plan.addSeed key).notes = plan.notes := by
  unfold addSeed
  split <;> rfl

end

namespace Setup

variable {setup : Setup} {site : InjectionSite} {plan result : FilePlan} {bindings : List Binding}
  {view : StatementView} {views : List StatementView} {supply supply' : NameSupply}
  {next : FilePlan × List Binding} {statements : List Node} {imports : Imports}

/-- Code for the statements of a block one after the other, with the bindings that each introduces. -/
inductive WritesEach (setup : Setup) (site : InjectionSite) :
    NameSupply → List StatementView → List (FilePlan × List Binding) → NameSupply → Prop where
  | nil {supply : NameSupply} : WritesEach setup site supply [] [] supply
  | cons {supply middle supply' : NameSupply} {view : StatementView} {views : List StatementView}
      {code : FilePlan × List Binding} {others : List (FilePlan × List Binding)}
      (here : setup.injectInto site {} [] view supply = (.ok code, middle))
      (rest : WritesEach setup site middle views others supply') :
      WritesEach setup site supply (view :: views) (code :: others) supply'

/-- The code for a statement depends neither on the plan so far nor on the bindings in force. -/
theorem injectInto_alone (done : setup.injectInto site plan bindings view supply = (.ok next, supply')) :
    ∃ code, setup.injectInto site {} [] view supply = (.ok code, supply') ∧
      next.1.edits = plan.edits ++ code.1.edits ∧ next.1.notes = plan.notes ∧ next.2 = bindings ++ code.2 := by
  unfold injectInto at done ⊢
  generalize setup.integrationFor? site.isMain view = chosen at done ⊢
  cases chosen with
  | none =>
      cases done
      exact ⟨({}, []), rfl, (List.append_nil _).symm, rfl, (List.append_nil _).symm⟩
  | some integration =>
      dsimp only at done ⊢
      by_cases needs : integration.needsHandle = true
      · rw [if_pos needs] at done ⊢
        cases done
        refine ⟨(({} : FilePlan).addSeed site.key, []), rfl, ?_, FilePlan.addSeed_notes _ _, (List.append_nil _).symm⟩
        rw [FilePlan.addSeed_edits, FilePlan.addSeed_edits, List.append_nil]
      rw [if_neg needs] at done ⊢
      by_cases ready : integration.isDone view = true
      · rw [if_pos ready] at done ⊢
        cases done
        exact ⟨({}, []), rfl, (List.append_nil _).symm, rfl, (List.append_nil _).symm⟩
      rw [if_neg ready] at done ⊢
      obtain ⟨injection, middle, generated, done⟩ := Naming.bind_eq_ok done
      rw [Naming.bind_of_ok generated]
      by_cases empty : injection.edits.isEmpty = true
      · rw [if_pos empty] at done ⊢
        cases done
        exact ⟨({}, []), rfl, (List.append_nil _).symm, rfl, (List.append_nil _).symm⟩
      · rw [if_neg empty] at done ⊢
        cases done
        exact ⟨(({} : FilePlan).addInjection view injection, injection.binding.toList), rfl, rfl, rfl, rfl⟩

/-- The code for a statement renames at most one variable, which the statement assigns. -/
theorem injectInto_rebinds (rebinds : ∀ integration ∈ setup.catalog, integration.Rebinds)
    {code : FilePlan × List Binding} (done : setup.injectInto site {} [] view supply = (.ok code, supply')) :
    ∃ bound : Option Binding, code.2 = bound.toList ∧
      ∀ binding ∈ bound.toList, binding.name ∈ view.node.assignedNames view.source := by
  unfold injectInto at done
  cases found : setup.integrationFor? site.isMain view with
  | none =>
      rw [found] at done
      cases done
      exact ⟨none, rfl, by simp⟩
  | some integration =>
      rw [found] at done
      dsimp only at done
      split at done
      · cases done
        exact ⟨none, rfl, by simp⟩
      split at done
      · cases done
        exact ⟨none, rfl, by simp⟩
      obtain ⟨injection, middle, generated, done⟩ := Naming.bind_eq_ok done
      obtain ⟨index, _, listed⟩ := List.mem_filterMap.1 (List.mem_of_find?_eq_some found)
      have applies := List.find?_some found
      rw [Bool.and_eq_true] at applies
      have renames := rebinds integration (List.mem_of_getElem? listed) view _ _ injection _ applies.2 generated
      split at done
      · cases done
        exact ⟨none, rfl, by simp⟩
      · cases done
        exact ⟨injection.binding, rfl, renames⟩

/-- One statement: first what the bindings in force mean for it, then its code. -/
theorem injectStatement_alone (text : view.source = site.source.text)
    (done : setup.injectStatement site (plan, bindings) view supply = (.ok next, supply')) :
    ∃ code, setup.injectInto site {} [] view supply = (.ok code, supply') ∧
      next.1.edits = plan.edits ++ ((site.carried bindings view.node).flatMap (·.1) ++ code.1.edits) ∧
      next.1.notes = plan.notes ++ (site.carried bindings view.node).flatMap (·.2) ∧
      next.2 = Binding.remaining site.source.text view.node bindings ++ code.2 := by
  unfold injectStatement at done
  rw [text] at done
  obtain ⟨code, alone, edits, notes, bound⟩ := injectInto_alone done
  exact ⟨code, alone, edits.trans (List.append_assoc _ _ _), notes, bound⟩

/-- The statements of the rest of a block, with `bindings` in force at its start. -/
theorem injectStatements_alone (texts : ∀ view ∈ views, view.source = site.source.text)
    (done : views.foldlM (setup.injectStatement site) (plan, bindings) supply = (.ok next, supply')) :
    ∃ codes, setup.WritesEach site supply views codes supply' ∧
      next.1.edits = plan.edits ++ (List.range views.length).flatMap (fun position =>
        (site.turn bindings (views.map (·.node)) (codes.map (·.2)) position).flatMap (·.1) ++
          (codes.getD position ({}, [])).1.edits) ∧
      next.1.notes = plan.notes ++ (List.range views.length).flatMap (fun position =>
        (site.turn bindings (views.map (·.node)) (codes.map (·.2)) position).flatMap (·.2)) := by
  induction views generalizing plan bindings supply with
  | nil =>
      cases done
      exact ⟨[], .nil, (List.append_nil _).symm, (List.append_nil _).symm⟩
  | cons view views ih =>
      obtain ⟨text, texts⟩ := List.forall_mem_cons.1 texts
      rw [List.foldlM_cons] at done
      obtain ⟨⟨plan', bindings'⟩, middle, first, rest⟩ := Naming.bind_eq_ok done
      obtain ⟨code, here, edits, notes, bound⟩ := injectStatement_alone text first
      obtain ⟨codes, written, edits', notes'⟩ := ih texts rest
      dsimp only at edits notes bound
      refine ⟨code :: codes, .cons here written, ?_, ?_⟩
      · rw [edits', edits, bound, List.length_cons, List.range_succ_eq_map, List.flatMap_cons, List.flatMap_map,
          List.append_assoc]
        simp only [List.map_cons, InjectionSite.turn_zero, InjectionSite.turn_succ, List.getD_cons_zero,
          List.getD_cons_succ]
      · rw [notes', notes, bound, List.length_cons, List.range_succ_eq_map, List.flatMap_cons, List.flatMap_map,
          List.append_assoc]
        simp only [List.map_cons, InjectionSite.turn_zero, InjectionSite.turn_succ]

/-- Bindings in force at one statement have different names. -/
theorem WritesEach.differ (rebinds : ∀ integration ∈ setup.catalog, integration.Rebinds)
    {codes : List (FilePlan × List Binding)} (written : setup.WritesEach site supply views codes supply')
    (texts : ∀ view ∈ views, view.source = site.source.text)
    (start : bindings.Pairwise fun a b => a.name ≠ b.name) (position : Nat) :
    (Binding.held site.source.text bindings (views.map (·.node)) (codes.map (·.2)) position).Pairwise
      fun a b => a.name ≠ b.name := by
  induction written generalizing bindings position with
  | nil =>
      have none : Binding.inForce site.source.text [] [] position = [] := by simp [Binding.inForce]
      rw [List.map_nil, List.map_nil, Binding.held, none, List.append_nil]
      exact start.filter _
  | @cons supply middle supply' view views code codes here rest ih =>
      obtain ⟨text, texts⟩ := List.forall_mem_cons.1 texts
      cases position with
      | zero => rwa [Binding.held_zero]
      | succ position =>
          obtain ⟨bound, only, assigned⟩ := injectInto_rebinds rebinds here
          rw [List.map_cons, List.map_cons, Binding.held_succ, only]
          refine ih texts (List.pairwise_append.2 ⟨start.filter _, ?_, ?_⟩) position
          · cases bound with
            | none => exact .nil
            | some _ => exact List.pairwise_singleton _ _
          · intro old kept new added same
            have gone := (List.mem_filter.1 kept).2
            have named := assigned new added
            rw [text, ← same] at named
            simp [named] at gone

/-- What the first pass does with the statements of a block: the code that they get, in front of it what the
bindings in force mean for them, and nothing else. -/
structure Tracks (setup : Setup) (imports : Imports) (site : InjectionSite) (statements : List Node)
    (codes : List (FilePlan × List Binding)) (before after : FilePlan) : Prop where
  written : ∃ supply supply',
    setup.WritesEach site supply (StatementView.ofSequence site.source.text imports statements) codes supply'
  edits : after.edits = before.edits ++ (List.range statements.length).flatMap fun position =>
    (site.turn [] statements (codes.map (·.2)) position).flatMap (·.1) ++ (codes.getD position ({}, [])).1.edits
  notes : after.notes = before.notes ++ (List.range statements.length).flatMap fun position =>
    (site.turn [] statements (codes.map (·.2)) position).flatMap (·.2)
  turns : ∀ position statement, statements[position]? = some statement →
    site.turn [] statements (codes.map (·.2)) position =
      (Binding.inForce site.source.text statements (codes.map (·.2)) position).map fun binding =>
        binding.carryOver site.source.path site.source.text (site.source.nodeLine statement) statement
  inForce : ∀ position binding,
    binding ∈ Binding.inForce site.source.text statements (codes.map (·.2)) position ↔
      ∃ earlier < position, binding ∈ (codes.map (·.2)).getD earlier [] ∧
        ∀ statement ∈ (statements.take position).drop (earlier + 1),
          binding.name ∉ statement.assignedNames site.source.text
  settles : ∀ (statement : Node) (binding : Binding), binding.Settles site.source.path site.source.text (site.source.nodeLine statement)
    statement (binding.carryOver site.source.path site.source.text (site.source.nodeLine statement) statement)
  differ : setup.catalog.IsSupplied → ∀ position,
    (Binding.inForce site.source.text statements (codes.map (·.2)) position).Pairwise fun a b => a.name ≠ b.name

theorem injectSequence_tracks (done : setup.injectSequence site imports plan statements supply = (.ok result, supply')) :
    ∃ codes, setup.Tracks imports site statements codes plan result := by
  unfold injectSequence at done
  obtain ⟨next, middle, walked, done⟩ := Naming.bind_eq_ok done
  cases Naming.pure_eq_ok done
  have nodes : (StatementView.ofSequence site.source.text imports statements).map (·.node) = statements := by
    rw [StatementView.ofSequence, List.map_map]
    exact List.zipIdx_map_fst 0 statements
  have texts : ∀ view ∈ StatementView.ofSequence site.source.text imports statements,
      view.source = site.source.text := by
    intro view member
    obtain ⟨_, _, rfl⟩ := List.mem_map.1 member
    rfl
  obtain ⟨codes, written, edits, notes⟩ := injectStatements_alone texts walked
  rw [← List.length_map, nodes] at edits notes
  refine ⟨codes, ⟨_, _, written⟩, edits, notes, ?_, fun _ _ => Binding.mem_inForce,
    fun statement binding => binding.settles_carryOver .., ?_⟩
  · intro position statement here
    rw [InjectionSite.turn, here, Option.toList_some, List.flatMap_singleton, Binding.held_nil, InjectionSite.carried]
  · intro supplied position
    have differ := written.differ supplied.rebinds texts .nil position
    rwa [nodes, Binding.held_nil] at differ

/-- The first pass goes through blocks one after the other, with no binding in force at the start of any. -/
inductive TracksAll (setup : Setup) (imports : Imports) : List (InjectionSite × List Node) → FilePlan → FilePlan → Prop where
  | nil {plan : FilePlan} : TracksAll setup imports [] plan plan
  | cons {site : InjectionSite} {statements : List Node} {blocks : List (InjectionSite × List Node)}
      {codes : List (FilePlan × List Binding)} {before middle after : FilePlan}
      (block : setup.Tracks imports site statements codes before middle)
      (others : TracksAll setup imports blocks middle after) :
      TracksAll setup imports ((site, statements) :: blocks) before after

theorem TracksAll.append {blocks blocks' : List (InjectionSite × List Node)} {before middle after : FilePlan}
    (first : setup.TracksAll imports blocks before middle) (second : setup.TracksAll imports blocks' middle after) :
    setup.TracksAll imports (blocks ++ blocks') before after := by
  induction first with
  | nil => exact second
  | cons block _ ih => exact .cons block (ih second)

/-- Blocks in the bodies of declarations, with the functions that they are in. -/
def blocksOf (source : Source) (package : Nat) (packageName : String) (decls : List FunctionDecl) :
    List (InjectionSite × List Node) :=
  decls.flatMap fun decl => decl.body.toList.flatMap fun body => body.sequences.map fun statements =>
    (⟨source, decl.key package, decl.isMain packageName⟩, statements.map (·.node))

theorem injectBlocks_tracksAll {blocks : List (List Node)}
    (done : blocks.foldlM (setup.injectSequence site imports) plan supply = (.ok result, supply')) :
    setup.TracksAll imports (blocks.map (site, ·)) plan result := by
  induction blocks generalizing plan supply with
  | nil =>
      cases done
      exact .nil
  | cons block blocks ih =>
      rw [List.foldlM_cons] at done
      obtain ⟨after, middle, first, rest⟩ := Naming.bind_eq_ok done
      obtain ⟨codes, tracks⟩ := injectSequence_tracks first
      exact .cons tracks (ih rest)

theorem injectDecls_tracksAll {source : Source} {package : Nat} {packageName : String} {decls : List FunctionDecl}
    (done : decls.foldlM (setup.injectDecl source package packageName imports) plan = .ok result) :
    setup.TracksAll imports (blocksOf source package packageName decls) plan result := by
  induction decls generalizing plan with
  | nil =>
      cases done
      exact .nil
  | cons decl decls ih =>
      rw [List.foldlM_cons] at done
      obtain ⟨after, first, rest⟩ := exists_of_bind_eq_ok done
      rw [blocksOf, List.flatMap_cons]
      refine TracksAll.append ?_ (ih rest)
      unfold injectDecl at first
      cases found : decl.body with
      | none =>
          rw [found] at first
          cases first
          exact .nil
      | some body =>
          rw [found] at first
          have tracks := injectBlocks_tracksAll (Prod.ext first rfl)
          rw [List.map_map] at tracks
          rw [Option.toList_some, List.flatMap_singleton]
          exact tracks

/-- Between the statement that introduces a new handler and one that uses it, a branch gives the old one another
value. -/
def branchingCode : Program where
  modulePath := none
  packages := [⟨".", "main", ".", false⟩]
  files := [⟨Source.load "main.go" ("package main\n\nimport \"log/slog\"\n\nfunc main() \x7b\n" ++
    "\th := slog.NewTextHandler(nil, nil)\n\tif true \x7b\n\t\th = nil\n\t\x7d\n\tslog.New(h)\n\x7d\n"), 0⟩]

theorem branchingCode_isParsed : branchingCode.IsParsed := by
  intro file member
  rw [List.mem_singleton.1 member]
  exact Source.isParsed_load _ _

def branchingSetup : Setup := .ofProgram branchingCode Catalog.builtIn {}

/-- The only block of three statements, with the plan for it. -/
theorem branchingCode_planned : (branchingSetup.planInjections branchingCode 0).toOption.any (fun plan =>
    branchingCode.files.any fun entry => (blocksOf entry.source 0 "main" (FunctionDecl.all entry.source)).any
      fun (_, statements) => match statements with
        | [_, branch, last] =>
            (branch.assignedNames entry.source.text).isEmpty &&
            branch.descendants.any (fun inner => inner.assignedNames entry.source.text == ["h"]) &&
            plan.edits.any fun edit => (NameUses.identifiers entry.source.text "h" last).any fun use =>
              edit.start == use.start && edit.stop == use.stop && edit.text == "NRh"
        | _ => false) = true := by decide +kernel

end Setup
end TraceWeave
