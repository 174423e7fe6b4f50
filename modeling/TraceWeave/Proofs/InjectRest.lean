import TraceWeave.Proofs.Ink
import TraceWeave.Proofs.Outcome
import TraceWeave.Weave.Inject

/-!
When the first pass has nothing to do with a file: every statement that an integration accepts has its
code, waits for the handle, or has no code to get. Names are carried over only from statements that
get code, so nothing else leads to an edit.
-/
namespace TraceWeave

open Go (Node Place)
open Text (ink)

/-- The new name shows more than the old one. -/
def Binding.Longer (binding : Binding) : Prop :=
  (ink binding.name).length < (ink binding.replacement).length

/-- What code for a statement looks like. -/
structure Injection.Sound (injection : Injection) (view : StatementView) : Prop where
  edits : ∀ edit ∈ injection.toEdits view.source view.node, Edit.Gains view.source edit
  binding : ∀ binding ∈ injection.binding.toList, binding.Longer

/-- Code that is put beside a statement and shows. -/
theorem Injection.gains_toEdits {injection : Injection} {source : String} {statement : Node}
    (each : ∀ pair ∈ injection.edits, pair.1 ≠ .replace ∧ Text.Shows pair.2) :
    ∀ edit ∈ injection.toEdits source statement, Edit.Gains source edit := by
  intro edit member
  obtain ⟨⟨placement, text⟩, listed, rfl⟩ := List.mem_map.1 member
  obtain ⟨beside, shows⟩ := each _ listed
  rcases placement with _ | _ | _ | offset
  · exact Edit.gains_addBefore shows
  · exact Edit.gains_addAfter shows
  · exact absurd rfl beside
  · exact Edit.gains_insertAt shows

/-- Uses of a name that are all arguments of the statement's call. -/
theorem NameUses.of_arguments {source name : String} {statement : Node} {nodes : List Node}
    (uses : ofStatement source name statement = .arguments nodes) : nodes = identifiers source name statement ∧
      ∃ call, statement.soleCall? = some call ∧ ∀ use ∈ nodes, ∃ argument ∈ call.callArguments, use.isSame argument = true := by
  unfold ofStatement at uses
  dsimp only at uses
  split at uses
  · cases uses
  · split at uses
    · cases uses
    · rename_i call found
      split at uses
      · rename_i each
        cases uses
        refine ⟨rfl, call, found, fun use member => ?_⟩
        exact List.any_eq_true.1 (List.all_eq_true.1 each use member)
      · cases uses

namespace Naming

variable {supply supply' : NameSupply} {base name : String}

/-- A fresh name is the base, maybe with a number. -/
theorem exists_of_fresh (done : Naming.fresh base supply = (.ok name, supply')) : ∃ number, name = base ++ number := by
  unfold Naming.fresh NameSupply.fresh at done
  split at done
  · rename_i found next taken
    cases done
    split at taken
    · rename_i candidate free
      cases taken
      rcases List.mem_cons.1 (List.mem_of_find?_eq_some free) with rfl | numbered
      · exact ⟨"", String.append_empty.symm⟩
      · obtain ⟨n, _, rfl⟩ := List.mem_map.1 numbered
        exact ⟨_, rfl⟩
    · cases taken
  · cases done

theorem ink_fresh (done : Naming.fresh base supply = (.ok name, supply')) : (ink base).length ≤ (ink name).length := by
  obtain ⟨number, rfl⟩ := exists_of_fresh done
  rw [Text.ink_append, List.length_append]
  exact Nat.le_add_right _ _

end Naming

namespace Setup

/-- The integrations that write code in the first pass. -/
theorem mem_of_integrationFor? {setup : Setup} {isMain : Bool} {view : StatementView} {integration : Integration}
    (builtIn : setup.catalog = Catalog.builtIn) (found : setup.integrationFor? isMain view = some integration)
    (apart : integration.needsHandle = false) :
    integration = Slog.integration ∨ integration = Gin.integration ∨ integration = Http.server := by
  obtain ⟨index, _, listed⟩ := List.mem_filterMap.1 (List.mem_of_find?_eq_some found)
  rw [builtIn] at listed
  have member : integration ∈ Catalog.builtIn := List.mem_of_getElem? listed
  simp only [Catalog.builtIn, List.mem_cons, List.not_mem_nil, or_false] at member
  rcases member with rfl | rfl | rfl | rfl
  · exact .inl rfl
  · exact .inr (.inl rfl)
  · exact .inr (.inr rfl)
  · cases apart

variable {view : StatementView} {names : AgentNames} {injection : Injection} {supply supply' : NameSupply}

theorem slog_sound (done : Slog.generate view names supply = (.ok injection, supply')) :
    injection.Sound view ∧ injection.edits ≠ [] := by
  unfold Slog.generate at done
  obtain ⟨name, middle, fresh, done⟩ := Naming.bind_eq_ok done
  cases Naming.pure_eq_ok done
  refine ⟨⟨Injection.gains_toEdits ?_, ?_⟩, List.cons_ne_nil _ _⟩
  · rw [List.forall_mem_singleton]
    exact ⟨by simp, Text.Shows.after (by decide) _⟩
  · rw [Option.toList_some, List.forall_mem_singleton]
    have longer := Naming.ink_fresh fresh
    rw [Text.ink_append, List.length_append] at longer
    have mark : (ink "NR").length = 2 := by decide
    unfold Binding.Longer
    dsimp only
    omega

theorem gin_sound (done : Gin.generate view names supply = (.ok injection, supply')) :
    injection.Sound view ∧ injection.edits ≠ [] := by
  unfold Gin.generate at done
  cases Naming.pure_eq_ok done
  refine ⟨⟨Injection.gains_toEdits ?_, by simp⟩, List.cons_ne_nil _ _⟩
  rw [List.forall_mem_singleton]
  exact ⟨by simp, Text.Shows.after (by decide) _⟩

/-- Whether a registration gets code does not depend on the names there are. -/
theorem generateServer_cases (view : StatementView) :
    (∀ names supply, Http.generateServer view names supply = (.ok {}, supply)) ∨
      ∃ call function wrapper first last, view.packageCall? Http.path = some (call, function) ∧
        call.callArguments = [first, last] ∧ ∀ names supply, Http.generateServer view names supply =
          (.ok { edits := [(.at first.start, view.imports.callName Integration.agentPath ++ "." ++ wrapper ++ "(" ++
                    names.agent ++ ", "), (.at last.stop, ")")]
                 imports := [Integration.agentPath] }, supply) := by
  unfold Http.generateServer
  cases view.packageCall? Http.path with
  | none => exact .inl fun _ _ => rfl
  | some found =>
      obtain ⟨call, function⟩ := found
      dsimp only
      cases Http.wrapper? function with
      | none => exact .inl fun _ _ => rfl
      | some wrapper =>
          rcases arguments : call.callArguments with _ | ⟨first, _ | ⟨last, _ | ⟨more, rest⟩⟩⟩
          · exact .inl fun _ _ => rfl
          · exact .inl fun _ _ => rfl
          · exact .inr ⟨call, function, wrapper, first, last, rfl, arguments, fun _ _ => rfl⟩
          · exact .inl fun _ _ => rfl

theorem server_sound (done : Http.generateServer view names supply = (.ok injection, supply')) :
    injection.Sound view ∧ ∀ other supply, ∃ injection', Http.generateServer view other supply = (.ok injection', supply) ∧
      (injection'.edits = [] ↔ injection.edits = []) := by
  rcases generateServer_cases view with nothing | ⟨call, function, wrapper, first, last, _, _, generated⟩
  · cases (nothing names supply).symm.trans done
    exact ⟨⟨Injection.gains_toEdits (by simp), by simp⟩, fun other supply => ⟨{}, nothing other supply, Iff.rfl⟩⟩
  · cases (generated names supply).symm.trans done
    refine ⟨⟨Injection.gains_toEdits ?_, by simp⟩, fun other supply => ⟨_, generated other supply, by simp⟩⟩
    rw [List.forall_mem_cons, List.forall_mem_singleton]
    have closes : Text.Shows ")" := by decide
    exact ⟨⟨by simp, Text.Shows.after (by decide) _⟩, by simp, closes⟩

/-- A statement that gets code in the first pass. -/
def Wants (setup : Setup) (isMain : Bool) (view : StatementView) : Prop :=
  ∃ integration, setup.integrationFor? isMain view = some integration ∧ integration.needsHandle = false ∧
    integration.isDone view = false ∧ ∃ supply injection supply',
      integration.generate view setup.names supply = (.ok injection, supply') ∧ injection.edits ≠ []

/-- Whether there is code does not depend on the names there are. -/
theorem generate_sound {setup : Setup} {isMain : Bool} {integration : Integration}
    (builtIn : setup.catalog = Catalog.builtIn) (found : setup.integrationFor? isMain view = some integration)
    (apart : integration.needsHandle = false)
    (done : integration.generate view setup.names supply = (.ok injection, supply')) :
    injection.Sound view ∧ (injection.edits = [] → ∀ other injection' other',
      integration.generate view setup.names other = (.ok injection', other') → injection'.edits = []) := by
  rcases mem_of_integrationFor? builtIn found apart with rfl | rfl | rfl
  · obtain ⟨sound, some⟩ := slog_sound done
    exact ⟨sound, fun nothing => absurd nothing some⟩
  · obtain ⟨sound, some⟩ := gin_sound done
    exact ⟨sound, fun nothing => absurd nothing some⟩
  · obtain ⟨sound, same⟩ := server_sound done
    refine ⟨sound, fun nothing other injection' other' done' => ?_⟩
    obtain ⟨injection'', made, empty⟩ := same setup.names other
    have equal : Http.generateServer view setup.names other = (.ok injection', other') := done'
    cases made.symm.trans equal
    exact empty.2 nothing

/-- Edits are added exactly if something is wanted, and they gain. -/
structure Adds (text : String) (wanted : Prop) (before after : List Edit) : Prop where
  added : ∃ new, after = before ++ new ∧ (new = [] ↔ ¬ wanted) ∧ ∀ edit ∈ new, Edit.Gains text edit

/-- Nothing is wanted and nothing happens. -/
theorem Adds.idle {text : String} {wanted : Prop} (unwanted : ¬ wanted) (edits : List Edit) :
    Adds text wanted edits edits := ⟨[], (List.append_nil _).symm, by simp [unwanted], by simp⟩

variable {setup : Setup} {site : InjectionSite} {plan : FilePlan} {bindings : List Binding}
  {next : FilePlan × List Binding}

/-- A statement is passed over, or it gets the code of its integration. -/
theorem injectInto_cases (builtIn : setup.catalog = Catalog.builtIn)
    (done : setup.injectInto site plan bindings view supply = (.ok next, supply')) :
    (¬ setup.Wants site.isMain view ∧
        (next.1.edits = plan.edits ∧ next.1.imports = plan.imports ∧ next.1.notes = plan.notes) ∧ next.2 = bindings) ∨
      setup.Wants site.isMain view ∧ ∃ integration injection middle,
        setup.integrationFor? site.isMain view = some integration ∧ integration.needsHandle = false ∧
        integration.generate view setup.names supply = (.ok injection, middle) ∧ injection.edits ≠ [] ∧
        next = (plan.addInjection view injection, bindings ++ injection.binding.toList) := by
  unfold injectInto at done
  cases found : setup.integrationFor? site.isMain view with
  | none =>
      rw [found] at done
      cases Naming.pure_eq_ok done
      refine .inl ⟨?_, ⟨rfl, rfl, rfl⟩, rfl⟩
      rintro ⟨integration, other, _⟩
      cases found.symm.trans other
  | some integration =>
      rw [found] at done
      dsimp only at done
      by_cases needs : integration.needsHandle = true
      · rw [if_pos needs] at done
        cases Naming.pure_eq_ok done
        have same : (plan.addSeed site.key).edits = plan.edits ∧ (plan.addSeed site.key).imports = plan.imports ∧
            (plan.addSeed site.key).notes = plan.notes := by
          unfold FilePlan.addSeed
          split
          · exact ⟨rfl, rfl, rfl⟩
          · exact ⟨rfl, rfl, rfl⟩
        refine .inl ⟨?_, same, rfl⟩
        rintro ⟨integration, other, apart, _⟩
        cases found.symm.trans other
        rw [needs] at apart
        cases apart
      · rw [if_neg needs] at done
        have apart : integration.needsHandle = false := Bool.not_eq_true _ ▸ needs
        by_cases ready : integration.isDone view = true
        · rw [if_pos ready] at done
          cases Naming.pure_eq_ok done
          refine .inl ⟨?_, ⟨rfl, rfl, rfl⟩, rfl⟩
          rintro ⟨integration, other, _, waits, _⟩
          cases found.symm.trans other
          rw [ready] at waits
          cases waits
        · rw [if_neg ready] at done
          obtain ⟨injection, middle, generated, done⟩ := Naming.bind_eq_ok done
          by_cases empty : injection.edits.isEmpty = true
          · rw [if_pos empty] at done
            cases Naming.pure_eq_ok done
            refine .inl ⟨?_, ⟨rfl, rfl, rfl⟩, rfl⟩
            rintro ⟨integration, other, _, _, supply, injection', supply', generated', some⟩
            cases found.symm.trans other
            have same := (generate_sound builtIn found apart generated).2 (List.isEmpty_iff.1 empty)
            exact some (same supply injection' supply' generated')
          · rw [if_neg empty] at done
            have some : injection.edits ≠ [] := fun contrary => empty (List.isEmpty_iff.2 contrary)
            refine .inr ⟨⟨integration, found, apart, Bool.not_eq_true _ ▸ ready, _, injection, _, generated, some⟩, ?_⟩
            exact ⟨integration, injection, middle, rfl, apart, generated, some, Naming.pure_eq_ok done⟩

theorem injectInto_adds (builtIn : setup.catalog = Catalog.builtIn)
    (done : setup.injectInto site plan bindings view supply = (.ok next, supply')) :
    Adds view.source (setup.Wants site.isMain view) plan.edits next.1.edits ∧
      ∃ added : List Binding, next.2 = bindings ++ added ∧ (∀ binding ∈ added, binding.Longer) ∧
        (¬ setup.Wants site.isMain view → added = []) := by
  rcases injectInto_cases builtIn done with
    ⟨unwanted, ⟨edits, _⟩, same⟩ | ⟨wants, integration, injection, middle, found, apart, generated, some, rfl⟩
  · rw [edits, same]
    exact ⟨.idle unwanted _, [], (List.append_nil _).symm, by simp, fun _ => rfl⟩
  · have sound := (generate_sound builtIn found apart generated).1
    refine ⟨⟨_, rfl, ?_, sound.edits⟩, _, rfl, sound.binding, fun contrary => absurd wants contrary⟩
    simp [Injection.toEdits, some, wants]

/-- Names that are carried over are longer than those they replace. -/
theorem carryOver_gains {path source : String} {line : Nat} {statement : Node} {binding : Binding}
    (longer : binding.Longer) : ∀ edit ∈ (binding.carryOver path source line statement).1, Edit.Gains source edit := by
  unfold Binding.carryOver
  split
  · simp
  · rename_i nodes uses
    intro edit member
    obtain ⟨node, listed, rfl⟩ := List.mem_map.1 member
    rw [(NameUses.of_arguments uses).1] at listed
    have test := (List.mem_filter.1 listed).2
    simp only [Bool.and_eq_true, beq_iff_eq] at test
    refine Edit.gains_replaceNode ?_
    rw [test.1.2]
    exact longer
  · simp

/-- One statement after names have been carried over to it. -/
theorem injectStatement_adds (builtIn : setup.catalog = Catalog.builtIn) (longer : ∀ binding ∈ bindings, binding.Longer)
    (done : setup.injectStatement site (plan, bindings) view supply = (.ok next, supply')) :
    ∃ carried new added, next.1.edits = plan.edits ++ carried ++ new ∧
      next.2 = Binding.remaining view.source view.node bindings ++ added ∧
      (∀ edit ∈ carried ++ new, Edit.Gains view.source edit) ∧ (∀ binding ∈ next.2, binding.Longer) ∧
      (bindings = [] → carried = []) ∧ (new = [] ↔ ¬ setup.Wants site.isMain view) ∧
      (¬ setup.Wants site.isMain view → added = []) := by
  obtain ⟨⟨new, edits, nothing, gains⟩, added, bound, longer', none⟩ := injectInto_adds builtIn done
  refine ⟨_, new, added, edits, bound, ?_, ?_, ?_, nothing, none⟩
  · intro edit member
    rcases List.mem_append.1 member with carried | fresh
    · obtain ⟨part, listed, inside⟩ := List.mem_flatMap.1 carried
      obtain ⟨binding, held, rfl⟩ := List.mem_map.1 listed
      exact carryOver_gains (longer binding held) edit inside
    · exact gains edit fresh
  · intro binding member
    rw [bound] at member
    rcases List.mem_append.1 member with old | fresh
    · exact longer binding (List.mem_filter.1 old).1
    · exact longer' binding fresh
  · rintro rfl
    rfl

/-- All statements of a block. Without bindings at the start, nothing happens as long as nothing is
wanted; once something is, there are edits. -/
theorem injectStatements_adds (builtIn : setup.catalog = Catalog.builtIn) {views : List StatementView} {text : String}
    (texts : ∀ view ∈ views, view.source = text) (longer : ∀ binding ∈ bindings, binding.Longer)
    (done : (views.foldlM (setup.injectStatement site) (plan, bindings)) supply = (.ok next, supply')) :
    ∃ new, next.1.edits = plan.edits ++ new ∧ (∀ edit ∈ new, Edit.Gains text edit) ∧
      (bindings = [] → (new = [] ↔ ∀ view ∈ views, ¬ setup.Wants site.isMain view)) := by
  induction views generalizing plan bindings supply with
  | nil =>
      cases Naming.pure_eq_ok done
      exact ⟨[], (List.append_nil _).symm, by simp, by simp⟩
  | cons view views ih =>
      obtain ⟨here, texts⟩ := List.forall_mem_cons.1 texts
      rw [List.foldlM_cons] at done
      obtain ⟨⟨plan', bindings'⟩, middle, first, rest⟩ := Naming.bind_eq_ok done
      obtain ⟨carried, new, added, edits, bound, gains, longer', silent, nothing, none⟩ :=
        injectStatement_adds builtIn longer first
      obtain ⟨new', edits', gains', quiet⟩ := ih texts longer' rest
      dsimp only at edits bound longer'
      refine ⟨carried ++ new ++ new', ?_, ?_, ?_⟩
      · rw [edits', edits, List.append_assoc, List.append_assoc, List.append_assoc]
      · intro edit member
        rcases List.mem_append.1 member with now | later
        · exact here ▸ gains edit now
        · exact gains' edit later
      · rintro rfl
        rw [List.append_eq_nil_iff, List.append_eq_nil_iff, List.forall_mem_cons, silent rfl]
        constructor
        · rintro ⟨⟨_, empty⟩, empty'⟩
          have unwanted := nothing.1 empty
          rw [none unwanted] at bound
          exact ⟨unwanted, (quiet bound).1 empty'⟩
        · rintro ⟨unwanted, others⟩
          rw [none unwanted] at bound
          exact ⟨⟨rfl, nothing.2 unwanted⟩, (quiet bound).2 others⟩

/-! Composition. -/

theorem Adds.trans {text : String} {wanted wanted' : Prop} {before middle after : List Edit}
    (first : Adds text wanted before middle) (second : Adds text wanted' middle after) :
    Adds text (wanted ∨ wanted') before after := by
  obtain ⟨new, rfl, nothing, gains⟩ := first
  obtain ⟨new', rfl, nothing', gains'⟩ := second
  refine ⟨new ++ new', List.append_assoc _ _ _, ?_, ?_⟩
  · rw [List.append_eq_nil_iff, nothing, nothing', not_or]
  · intro edit member
    rcases List.mem_append.1 member with now | later
    · exact gains edit now
    · exact gains' edit later

theorem Adds.congr {text : String} {wanted wanted' : Prop} {before after : List Edit}
    (adds : Adds text wanted before after) (same : wanted ↔ wanted') : Adds text wanted' before after := by
  obtain ⟨new, result, nothing, gains⟩ := adds
  exact ⟨new, result, nothing.trans (not_congr same), gains⟩

/-- A walk in which every step adds what it is to add. -/
theorem Adds.foldlM_naming {α : Type} {step : FilePlan → α → Naming FilePlan} {wanted : α → Prop} {text : String}
    {items : List α} {result : FilePlan}
    (each : ∀ item ∈ items, ∀ before supply after supply', step before item supply = (.ok after, supply') →
      Adds text (wanted item) before.edits after.edits)
    (done : (items.foldlM step plan) supply = (.ok result, supply')) :
    Adds text (∃ item ∈ items, wanted item) plan.edits result.edits := by
  induction items generalizing plan supply with
  | nil =>
      cases Naming.pure_eq_ok done
      exact .idle (by simp) _
  | cons item items ih =>
      obtain ⟨here, each⟩ := List.forall_mem_cons.1 each
      rw [List.foldlM_cons] at done
      obtain ⟨after, middle, first, rest⟩ := Naming.bind_eq_ok done
      refine ((here plan supply after middle first).trans (ih each rest)).congr ?_
      simp only [List.mem_cons, exists_eq_or_imp]

theorem Adds.foldlM_except {α : Type} {step : FilePlan → α → Except NameCollision FilePlan} {wanted : α → Prop}
    {text : String} {items : List α} {result : FilePlan}
    (each : ∀ item ∈ items, ∀ before after, step before item = .ok after →
      Adds text (wanted item) before.edits after.edits)
    (done : items.foldlM step plan = .ok result) :
    Adds text (∃ item ∈ items, wanted item) plan.edits result.edits := by
  induction items generalizing plan with
  | nil =>
      cases done
      exact .idle (by simp) _
  | cons item items ih =>
      obtain ⟨here, each⟩ := List.forall_mem_cons.1 each
      rw [List.foldlM_cons] at done
      obtain ⟨after, first, rest⟩ := exists_of_bind_eq_ok done
      refine ((here plan after first).trans (ih each rest)).congr ?_
      simp only [List.mem_cons, exists_eq_or_imp]

/-! Bodies, declarations and files. -/

/-- The statements of a body as the first pass looks at them. -/
def statementViews (source : Source) (imports : Imports) (body : Place) : List StatementView :=
  body.sequences.flatMap fun places => StatementView.ofSequence source.text imports (places.map (·.node))

variable {imports : Imports} {statements : List Node} {result : FilePlan}

theorem injectSequence_adds (builtIn : setup.catalog = Catalog.builtIn)
    (done : setup.injectSequence site imports plan statements supply = (.ok result, supply')) :
    Adds site.source.text
      (∃ view ∈ StatementView.ofSequence site.source.text imports statements, setup.Wants site.isMain view)
      plan.edits result.edits := by
  unfold injectSequence at done
  obtain ⟨next, middle, walked, done⟩ := Naming.bind_eq_ok done
  cases Naming.pure_eq_ok done
  have texts : ∀ view ∈ StatementView.ofSequence site.source.text imports statements,
      view.source = site.source.text := by
    intro view member
    obtain ⟨pair, _, rfl⟩ := List.mem_map.1 member
    rfl
  obtain ⟨new, edits, gains, nothing⟩ := injectStatements_adds builtIn texts (by simp) walked
  refine ⟨new, edits, (nothing rfl).trans ?_, gains⟩
  simp only [not_exists, not_and]

theorem injectDecl_adds (builtIn : setup.catalog = Catalog.builtIn) {source : Source} {package : Nat}
    {packageName : String} {decl : FunctionDecl}
    (done : setup.injectDecl source package packageName imports plan decl = .ok result) :
    Adds source.text (∃ body ∈ decl.body, ∃ view ∈ statementViews source imports body,
      setup.Wants (decl.isMain packageName) view) plan.edits result.edits := by
  unfold injectDecl at done
  split at done
  · rename_i missing
    cases done
    exact .idle (by simp [missing]) _
  · rename_i body found
    dsimp only at done
    unfold injectBody at done
    have walked := Adds.foldlM_naming (fun statements _ before supply after supply' stepped =>
      injectSequence_adds builtIn stepped) (Prod.ext done rfl)
    refine walked.congr ?_
    simp only [found, Option.mem_some_iff, exists_eq_left', statementViews, List.mem_flatMap, List.mem_map]
    constructor
    · rintro ⟨_, ⟨places, listed, rfl⟩, view, member, wants⟩
      exact ⟨view, ⟨places, listed, member⟩, wants⟩
    · rintro ⟨view, ⟨places, listed, member⟩, wants⟩
      exact ⟨_, ⟨places, listed, rfl⟩, view, member, wants⟩

/-- Every statement of a file has the code that it gets in the first pass. -/
def Covered (setup : Setup) (program : Program) (entry : ProgramFile) (packageName : String) : Prop :=
  ∀ decl ∈ FunctionDecl.all entry.source, ∀ body ∈ decl.body,
    ∀ view ∈ statementViews entry.source (program.importsOf entry.source) body,
      ¬ setup.Wants (decl.isMain packageName) view

/-- No edit is planned for a file exactly if no statement in it gets code. -/
theorem planInjections_nil_iff (builtIn : setup.catalog = Catalog.builtIn) {program : Program} {file : Nat}
    {entry : ProgramFile} {package : Package} (here : program.files[file]? = some entry)
    (known : program.packageOf? file = some package) (done : setup.planInjections program file = .ok plan) :
    (plan.edits = [] ↔ setup.Covered program entry package.name) ∧
      ∀ edit ∈ plan.edits, Edit.Gains entry.source.text edit := by
  unfold planInjections at done
  rw [here, known] at done
  obtain ⟨new, edits, nothing, gains⟩ := Adds.foldlM_except (fun decl _ before after stepped =>
    injectDecl_adds builtIn stepped) done
  rw [List.nil_append] at edits
  rw [edits]
  refine ⟨nothing.trans ?_, gains⟩
  simp only [Covered, not_exists, not_and]

end Setup
end TraceWeave
