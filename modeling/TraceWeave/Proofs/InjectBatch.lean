import Mathlib.Data.List.Nodup
import TraceWeave.Proofs.InjectRest
import TraceWeave.Proofs.Leaves

/-!
The first pass writes between statements and around arguments, and puts new names in the place of
arguments. An argument tells the statement it belongs to, and the names in force differ, so no argument
is renamed twice.
-/
namespace TraceWeave

open Go (Node Place Token Kind)
open Go.Node (Annotated)
open Go.Place (Below Inside)

/-- What can stand between a statement and the arguments of its call. -/
def Go.Kind.isPassing : Kind → Bool
  | .argumentList | .callExpression | .expressionList => true
  | _ => false

namespace Go.Place

/-- From a statement into its call. -/
inductive Leads (statement : Place) : Place → Prop where
  | start (outside : statement.node.kind.isPassing = false) : Leads statement statement
  | into {place : Place} {child : Node} (leads : Leads statement place) (member : child ∈ place.node.children)
      (passing : child.kind.isPassing = true) : Leads statement (place.inside child)

/-- A place in the list of arguments of the call that a statement consists of. -/
structure Argues (statement argument : Place) : Prop where
  below : Below statement argument
  around : argument.around.dropWhile (·.kind.isPassing) = statement.node :: statement.around

variable {sound : Nat → Prop} {statement statement' argument place : Place} {call node : Node}

theorem Argues.unique (first : Argues statement argument) (second : Argues statement' argument) :
    statement = statement' := by
  have same := first.around.symm.trans second.around
  cases statement
  cases statement'
  cases same
  rfl

theorem Leads.isBelow (leads : Leads statement place) : Below statement place := by
  induction leads with
  | start _ => exact .here
  | @into place child _ member passing ih =>
      refine ih.inside (List.mem_filter.2 ⟨member, ?_⟩)
      cases kind : child.kind <;> simp [kind, Kind.isPassing] at passing <;> rfl

theorem Leads.outward (leads : Leads statement place) :
    (place.node :: place.around).dropWhile (·.kind.isPassing) = statement.node :: statement.around := by
  induction leads with
  | start outside =>
      apply List.dropWhile_cons_of_neg
      simp [outside]
  | @into place child _ _ passing ih =>
      change (child :: place.node :: place.around).dropWhile (·.kind.isPassing) = _
      rw [List.dropWhile_cons, if_pos passing]
      exact ih

theorem Leads.assigned {right : Node} (outside : statement.node.kind.isPassing = false)
    (child : statement.node.child? .right = some right) (items : right.items = [call])
    (kind : call.kind = .callExpression) : ∃ around, Leads statement ⟨call, around⟩ := by
  have member := List.mem_of_find?_eq_some child
  have passing : call.kind.isPassing = true := by rw [kind]; rfl
  unfold Node.items at items
  split at items
  · rename_i list
    have part : call ∈ right.parts := by simp [items]
    have inner : right.kind.isPassing = true := by rw [beq_iff_eq.1 list]; rfl
    exact ⟨_, ((Leads.start outside).into member inner).into (Edit.mem_parts part).1 passing⟩
  · cases items
    exact ⟨_, (Leads.start outside).into member passing⟩

theorem Leads.soleCall (found : statement.node.soleCall? = some call) :
    call.kind = .callExpression ∧ ∃ around, Leads statement ⟨call, around⟩ := by
  unfold Node.soleCall? at found
  split at found
  case h_1 kind | h_2 kind =>
    split at found
    · rename_i only items
      obtain ⟨right, child, items⟩ := Option.map_eq_some_iff.1 items
      split at found
      · rename_i called
        cases found
        rw [beq_iff_eq] at called
        exact ⟨called, Leads.assigned (by rw [kind]; rfl) child items called⟩
      · cases found
    · cases found
  case h_3 kind =>
    split at found
    · rename_i expression rest parts
      split at found
      · rename_i called
        cases found
        rw [beq_iff_eq] at called
        have part : call ∈ statement.node.parts := by simp [parts]
        exact ⟨called, _, (Leads.start (by rw [kind]; rfl)).into (Edit.mem_parts part).1 (by rw [called]; rfl)⟩
      · cases found
    · cases found
  case h_4 => cases found

/-- An argument of the call of a statement, in its place. -/
theorem exists_argues (annotated : Annotated sound statement.node) (found : statement.node.soleCall? = some call)
    (member : node ∈ call.callArguments) : ∃ argument, argument.node = node ∧ Argues statement argument := by
  obtain ⟨kind, around, leads⟩ := Leads.soleCall found
  obtain ⟨list, child, inner⟩ := (leads.isBelow.annotated annotated).argumentList kind
  rw [Node.callArguments, child] at member
  have leads := leads.into (List.mem_of_find?_eq_some child) (by rw [inner]; rfl)
  obtain ⟨listed, named, _⟩ := Edit.mem_parts member
  exact ⟨_, rfl, leads.isBelow.inside (List.mem_filter.2 ⟨listed, named⟩), leads.outward⟩

end Go.Place

/-! One statement. -/

section
variable {source : Source} {statement : Place} {binding : Binding} {bindings : List Binding} {nodes : List Node}

theorem NameUses.identifiers_pairwise (parsed : source.IsParsed) (below : Below source.rootPlace statement)
    (name : String) : (identifiers source.text name statement.node).Pairwise fun a b => a.start < b.start := by
  have annotated := below.annotated parsed.annotated
  have known := parsed.lexical below
  have order : (Place.ofRoot statement.node).descendants.Pairwise fun a b => Inside a b ∨ a.stop ≤ b.start :=
    Go.Place.descendants_pairwise annotated
  unfold identifiers Node.descendants
  rw [List.pairwise_filter, List.pairwise_map]
  refine order.imp_of_mem ?_
  intro a b met _ order first second
  simp only [Bool.and_eq_true, beq_iff_eq] at first second
  have inner := Go.Place.mem_descendants.1 met
  have lexical := inner.lexical known
  obtain ⟨bare, token, member, word, start, stop⟩ := lexical.word first.1.1
  have wide := Token.list_wide (List.mem_filter.1 member).1 (by simp [word])
  rcases order with inside | after
  · refine absurd inside (Go.Place.not_inside_of_bare (inner.annotated annotated) bare ?_)
    rw [Place.kind, second.1.1]
    simp
  · change a.node.stop ≤ b.node.start at after
    omega

/-- The argument that a use is. -/
theorem NameUses.exists_leaf {name : String} {use : Node} (parsed : source.IsParsed)
    (below : Below source.rootPlace statement)
    (uses : ofStatement source.text name statement.node = .arguments nodes) (member : use ∈ nodes) :
    ∃ leaf, source.IsLeaf .identifier leaf ∧ leaf.start = use.start ∧ leaf.stop = use.stop ∧
      statement.Argues leaf ∧ leaf.node.text source.text = name := by
  obtain ⟨same, call, found, each⟩ := of_arguments uses
  obtain ⟨argument, listed, alike⟩ := each use member
  obtain ⟨leaf, rfl, argues⟩ := Go.Place.exists_argues (below.annotated parsed.annotated) found listed
  rw [same] at member
  have test := (List.mem_filter.1 member).2
  simp only [Bool.and_eq_true, beq_iff_eq] at test
  simp only [Node.isSame, Bool.and_eq_true, beq_iff_eq] at alike
  have kind : leaf.node.kind = .identifier := alike.1.1.symm.trans test.1.1
  have place := below.trans argues.below
  refine ⟨leaf, ⟨place, kind, ((parsed.lexical place).word kind).1⟩, alike.1.2.symm, alike.2.symm, argues, ?_⟩
  rw [Node.text, ← alike.1.2, ← alike.2]
  exact test.1.2

/-- Nodes that are leaves, with a new text in the place of each. -/
theorem Source.Laid.replacing {kind : Kind} {holds : Place → Prop} (parsed : source.IsParsed)
    (each : ∀ node ∈ nodes, ∃ leaf, source.IsLeaf kind leaf ∧ leaf.start = node.start ∧ leaf.stop = node.stop ∧
      holds leaf) (text : String) :
    ∃ leaves, source.Laid kind (nodes.map fun node => Edit.replaceNode node text) leaves ∧
      leaves.map Place.start = nodes.map Node.start ∧ ∀ leaf ∈ leaves, holds leaf := by
  induction nodes with
  | nil => exact ⟨[], .nil, rfl, by simp⟩
  | cons node nodes ih =>
      obtain ⟨⟨leaf, is, start, stop, holds⟩, each⟩ := List.forall_mem_cons.1 each
      obtain ⟨leaves, laid, starts, others⟩ := ih each
      have same : Edit.replaceNode node text = Edit.replaceNode leaf.node text := by
        rw [Edit.replaceNode, ← start, ← stop]
        rfl
      have spans : (Edit.replaceNode node text).Spans source.text :=
        same ▸ Edit.spans_replaceNode (is.below.annotated parsed.annotated) text
      refine ⟨leaf :: leaves, .within is spans (Nat.le_of_eq start) (Nat.le_of_eq stop.symm) laid, ?_, ?_⟩
      · rw [List.map_cons, List.map_cons, start, starts]
      · exact List.forall_mem_cons.2 ⟨holds, others⟩

/-- One name is carried over to the arguments of a statement. -/
theorem Binding.carryOver_laid (parsed : source.IsParsed) (below : Below source.rootPlace statement)
    (path : String) (line : Nat) (binding : Binding) :
    ∃ leaves, source.Laid .identifier (binding.carryOver path source.text line statement.node).1 leaves ∧
      leaves.Nodup ∧ ∀ leaf ∈ leaves, statement.Argues leaf ∧ leaf.node.text source.text = binding.name := by
  unfold carryOver
  split
  · exact ⟨[], .nil, .nil, by simp⟩
  · rename_i nodes uses
    obtain ⟨leaves, laid, starts, each⟩ :=
      Source.Laid.replacing parsed (fun use member => NameUses.exists_leaf parsed below uses member) binding.replacement
    refine ⟨leaves, laid, List.Nodup.of_map Place.start ?_, each⟩
    have order := NameUses.identifiers_pairwise parsed below binding.name
    rw [← (NameUses.of_arguments uses).1] at order
    rw [starts, List.Nodup, List.pairwise_map]
    exact order.imp fun less => Nat.ne_of_lt less
  · exact ⟨[], .nil, .nil, by simp⟩

/-- All names in force, which differ, are carried over. -/
theorem Binding.carried_laid (parsed : source.IsParsed) (below : Below source.rootPlace statement)
    (path : String) (line : Nat) (differ : bindings.Pairwise fun a b => a.name ≠ b.name) :
    ∃ leaves, source.Laid .identifier
        ((bindings.map (carryOver path source.text line statement.node)).flatMap (·.1)) leaves ∧
      leaves.Nodup ∧ ∀ leaf ∈ leaves, statement.Argues leaf ∧
        ∃ binding ∈ bindings, leaf.node.text source.text = binding.name := by
  induction bindings with
  | nil => exact ⟨[], .nil, .nil, by simp⟩
  | cons binding bindings ih =>
      obtain ⟨apart, differ⟩ := List.pairwise_cons.1 differ
      obtain ⟨leaves, laid, once, each⟩ := carryOver_laid parsed below path line binding
      obtain ⟨leaves', laid', once', each'⟩ := ih differ
      refine ⟨leaves ++ leaves', laid.append laid', List.nodup_append.2 ⟨once, once', ?_⟩, ?_⟩
      · rintro leaf member _ member' rfl
        obtain ⟨other, listed, text⟩ := (each' leaf member').2
        exact apart other listed ((each leaf member).2.symm.trans text)
      · intro leaf member
        rcases List.mem_append.1 member with here | later
        · exact ⟨(each leaf here).1, binding, List.mem_cons_self, (each leaf here).2⟩
        · obtain ⟨argues, other, listed, text⟩ := each' leaf later
          exact ⟨argues, other, List.mem_cons_of_mem _ listed, text⟩

theorem StatementView.mem_of_assigned? {view : StatementView} {name : String} (assigned : view.assigned? = some name) :
    name ∈ view.node.assignedNames view.source :=
  List.mem_of_head? (Option.filter_eq_some_iff.1 assigned).1

theorem StatementView.soleCall?_of_packageCall? {view : StatementView} {path function : String} {call : Node}
    (found : view.packageCall? path = some (call, function)) : view.node.soleCall? = some call := by
  obtain ⟨call', sole, rest⟩ := Option.bind_eq_some_iff.1 found
  obtain ⟨⟨operand, field⟩, _, rest⟩ := Option.bind_eq_some_iff.1 rest
  dsimp only at rest
  split at rest
  · cases rest
    exact sole
  · cases rest

theorem Slog.mem_of_handler? {view : StatementView} {name : String} (found : Slog.handler? view = some name) :
    name ∈ view.node.assignedNames view.source := by
  unfold Slog.handler? at found
  obtain ⟨⟨call, function⟩, _, found⟩ := Option.bind_eq_some_iff.1 found
  dsimp only at found
  split at found
  · exact StatementView.mem_of_assigned? found
  · cases found

namespace Setup

variable {setup : Setup} {site : InjectionSite} {plan : FilePlan} {view : StatementView} {injection : Injection}
  {supply supply' : NameSupply} {next : FilePlan × List Binding}

/-- Code is written beside arguments, and what it names anew is a name that the statement assigns. -/
structure Fits (source : Source) (view : StatementView) (injection : Injection) : Prop where
  edits : ∀ edit ∈ injection.toEdits view.source view.node, source.Beside .identifier edit
  binding : ∀ binding ∈ injection.binding.toList, binding.name ∈ view.node.assignedNames view.source

theorem fits_after (parsed : source.IsParsed) (below : Below source.rootPlace statement)
    (solid : statement.kind ≠ .comment) (text : view.source = source.text) (node : view.node = statement.node)
    {code : String} (only : injection.edits = [(.after, code)])
    (binding : ∀ binding ∈ injection.binding.toList, binding.name ∈ view.node.assignedNames view.source) :
    Fits source view injection := by
  refine ⟨?_, binding⟩
  rw [Injection.toEdits, only, List.map_singleton, List.forall_mem_singleton, text, node]
  exact Source.beside_addAfter parsed (by simp) below solid code

theorem exists_argument {call part : Node} (parsed : source.IsParsed) (below : Below source.rootPlace statement)
    (sole : statement.node.soleCall? = some call) (member : part ∈ call.callArguments) :
    ∃ place, Below source.rootPlace place ∧ place.kind ≠ .comment ∧ place.node = part := by
  obtain ⟨place, rfl, argues⟩ := Go.Place.exists_argues (below.annotated parsed.annotated) sole member
  refine ⟨place, below.trans argues.below, ?_, rfl⟩
  unfold Node.callArguments at member
  split at member
  · exact (Edit.mem_parts member).2.2
  · cases member

theorem server_fits (parsed : source.IsParsed) (below : Below source.rootPlace statement)
    (node : view.node = statement.node) {names : AgentNames}
    (generated : Http.generateServer view names supply = (.ok injection, supply')) : Fits source view injection := by
  rcases generateServer_cases view with nothing | ⟨call, function, wrapper, first, last, found, arguments, made⟩
  · cases (nothing names supply).symm.trans generated
    exact ⟨by simp [Injection.toEdits], by simp⟩
  · cases (made names supply).symm.trans generated
    have sole := StatementView.soleCall?_of_packageCall? found
    rw [node] at sole
    obtain ⟨place, inside, solid, rfl⟩ := exists_argument parsed below sole (show first ∈ _ by simp [arguments])
    obtain ⟨place', inside', solid', rfl⟩ := exists_argument parsed below sole (show last ∈ _ by simp [arguments])
    refine ⟨?_, by simp⟩
    simp only [Injection.toEdits, List.map_cons, List.map_nil, List.forall_mem_cons]
    exact ⟨Source.beside_start parsed inside solid _, Source.beside_stop parsed inside' solid' _, by simp⟩

theorem generate_fits {isMain : Bool} {integration : Integration} (builtIn : setup.catalog = Catalog.builtIn)
    (parsed : source.IsParsed) (below : Below source.rootPlace statement) (solid : statement.kind ≠ .comment)
    (text : view.source = source.text) (node : view.node = statement.node)
    (found : setup.integrationFor? isMain view = some integration) (apart : integration.needsHandle = false)
    (generated : integration.generate view setup.names supply = (.ok injection, supply')) :
    Fits source view injection := by
  have applies := List.find?_some found
  rw [Bool.and_eq_true] at applies
  rcases mem_of_integrationFor? builtIn found apart with rfl | rfl | rfl
  · obtain ⟨name, fresh, _, generated⟩ := Naming.bind_eq_ok generated
    cases Naming.pure_eq_ok generated
    refine fits_after parsed below solid text node rfl ?_
    obtain ⟨handler, named⟩ := Option.isSome_iff_exists.1 applies.2
    rw [Option.toList_some, List.forall_mem_singleton, named]
    exact Slog.mem_of_handler? named
  · cases Naming.pure_eq_ok generated
    exact fits_after parsed below solid text node rfl (by simp)
  · exact server_fits parsed below node generated

/-! The walk over the statements of a file. -/

/-- Places of which none that takes room comes up twice. -/
def Distinct (statements : List Place) : Prop := statements.Pairwise fun a b => a = b → a.stop ≤ a.start

/-- Edits are added that write beside arguments, or rename arguments of the given statements once. -/
def Lays (source : Source) (statements : List Place) (before after : List Edit) : Prop :=
  ∃ new leaves, after = before ++ new ∧ source.Laid .identifier new leaves ∧ leaves.Nodup ∧
    ∀ leaf ∈ leaves, ∃ statement ∈ statements, Below source.rootPlace statement ∧ statement.Argues leaf

theorem Lays.idle (statements : List Place) (edits : List Edit) : Lays source statements edits edits :=
  ⟨[], [], (List.append_nil _).symm, .nil, .nil, by simp⟩

theorem Lays.append (parsed : source.IsParsed) {statements statements' : List Place} {before middle after : List Edit}
    (first : Lays source statements before middle) (second : Lays source statements' middle after)
    (distinct : Distinct (statements ++ statements')) : Lays source (statements ++ statements') before after := by
  obtain ⟨new, leaves, rfl, laid, once, each⟩ := first
  obtain ⟨new', leaves', rfl, laid', once', each'⟩ := second
  refine ⟨new ++ new', leaves ++ leaves', List.append_assoc _ _ _, laid.append laid', ?_, ?_⟩
  · refine List.nodup_append.2 ⟨once, once', ?_⟩
    rintro leaf member _ member' rfl
    obtain ⟨statement, listed, below, argues⟩ := each leaf member
    obtain ⟨statement', listed', _, argues'⟩ := each' leaf member'
    -- the argument takes room in a statement that comes up twice
    have empty := (List.pairwise_append.1 distinct).2.2 statement listed statement' listed' (argues.unique argues')
    have inside := argues.below.within (below.annotated parsed.annotated)
    have wide := (laid.isLeaf leaf member).wide parsed (by simp)
    omega
  · intro leaf member
    rcases List.mem_append.1 member with here | later
    · obtain ⟨statement, listed, argues⟩ := each leaf here
      exact ⟨statement, List.mem_append_left _ listed, argues⟩
    · obtain ⟨statement, listed, argues⟩ := each' leaf later
      exact ⟨statement, List.mem_append_right _ listed, argues⟩

theorem injectStatement_lays (builtIn : setup.catalog = Catalog.builtIn) (parsed : source.IsParsed)
    (below : Below source.rootPlace statement) (solid : statement.kind ≠ .comment) (text : view.source = source.text)
    (node : view.node = statement.node) (differ : bindings.Pairwise fun a b => a.name ≠ b.name)
    (done : setup.injectStatement site (plan, bindings) view supply = (.ok next, supply')) :
    Lays source [statement] plan.edits next.1.edits ∧ next.2.Pairwise fun a b => a.name ≠ b.name := by
  obtain ⟨leaves, laid, once, each⟩ :=
    Binding.carried_laid parsed below site.source.path (site.source.nodeLine view.node) differ
  rw [← text, ← node] at laid
  have argued : ∀ leaf ∈ leaves, ∃ other ∈ [statement], Below source.rootPlace other ∧ other.Argues leaf := by
    intro leaf member
    exact ⟨statement, List.mem_singleton.2 rfl, below, (each leaf member).1⟩
  have remain : (Binding.remaining view.source view.node bindings).Pairwise fun a b => a.name ≠ b.name := differ.filter _
  rcases injectInto_cases builtIn done with
    ⟨_, ⟨edits, _⟩, same⟩ | ⟨_, integration, injection, middle, found, apart, generated, _, rfl⟩
  · rw [edits, same]
    exact ⟨⟨_, leaves, rfl, laid, once, argued⟩, remain⟩
  · have fits := generate_fits builtIn parsed below solid text node found apart generated
    refine ⟨⟨_, leaves ++ [], ?_, laid.append (.of_beside fits.edits), ?_, ?_⟩, ?_⟩
    · exact List.append_assoc _ _ _
    · rwa [List.append_nil]
    · rwa [List.append_nil]
    · refine List.pairwise_append.2 ⟨remain, ?_, ?_⟩
      · cases injection.binding with
        | none => exact .nil
        | some _ => exact List.pairwise_singleton _ _
      · intro old kept new added same
        have assigned := fits.binding new added
        rw [← same] at assigned
        have gone := (List.mem_filter.1 kept).2
        simp [assigned] at gone

theorem injectStatements_lays (builtIn : setup.catalog = Catalog.builtIn) (parsed : source.IsParsed)
    {views : List StatementView} {statements : List Place}
    (below : ∀ statement ∈ statements, Below source.rootPlace statement ∧ statement.kind ≠ .comment)
    (texts : ∀ view ∈ views, view.source = source.text) (nodes : views.map (·.node) = statements.map (·.node))
    (distinct : Distinct statements) (differ : bindings.Pairwise fun a b => a.name ≠ b.name)
    (done : (views.foldlM (setup.injectStatement site) (plan, bindings)) supply = (.ok next, supply')) :
    Lays source statements plan.edits next.1.edits := by
  induction views generalizing plan bindings supply statements with
  | nil =>
      cases Naming.pure_eq_ok done
      exact .idle _ _
  | cons view views ih =>
      cases statements with
      | nil => cases nodes
      | cons statement statements =>
          obtain ⟨⟨place, solid⟩, below⟩ := List.forall_mem_cons.1 below
          obtain ⟨text, texts⟩ := List.forall_mem_cons.1 texts
          obtain ⟨node, nodes⟩ := List.cons.inj nodes
          rw [List.foldlM_cons] at done
          obtain ⟨⟨plan', bindings'⟩, middle, first, rest⟩ := Naming.bind_eq_ok done
          obtain ⟨lays, differ'⟩ := injectStatement_lays builtIn parsed place solid text node differ first
          have lays' := ih below texts nodes (List.pairwise_cons.1 distinct).2 differ' rest
          exact lays.append parsed lays' distinct

theorem injectSequence_lays (builtIn : setup.catalog = Catalog.builtIn) (parsed : site.source.IsParsed)
    {imports : Imports} {statements : List Place} {result : FilePlan}
    (below : ∀ statement ∈ statements, Below site.source.rootPlace statement ∧ statement.kind ≠ .comment)
    (distinct : Distinct statements)
    (done : setup.injectSequence site imports plan (statements.map (·.node)) supply = (.ok result, supply')) :
    Lays site.source statements plan.edits result.edits := by
  unfold injectSequence at done
  obtain ⟨next, middle, walked, done⟩ := Naming.bind_eq_ok done
  cases Naming.pure_eq_ok done
  refine injectStatements_lays builtIn parsed below ?_ ?_ distinct .nil walked
  · intro view member
    obtain ⟨pair, _, rfl⟩ := List.mem_map.1 member
    rfl
  · unfold StatementView.ofSequence
    rw [List.map_map]
    exact List.zipIdx_map_fst 0 _

/-! Bodies, declarations and files. -/

theorem Lays.foldlM_naming {α : Type} {step : FilePlan → α → Naming FilePlan} {statements : α → List Place}
    {items : List α} {result : FilePlan} (parsed : source.IsParsed)
    (each : ∀ item ∈ items, ∀ before supply after supply', step before item supply = (.ok after, supply') →
      Lays source (statements item) before.edits after.edits)
    (distinct : Distinct (items.flatMap statements))
    (done : (items.foldlM step plan) supply = (.ok result, supply')) :
    Lays source (items.flatMap statements) plan.edits result.edits := by
  induction items generalizing plan supply with
  | nil =>
      cases Naming.pure_eq_ok done
      exact .idle _ _
  | cons item items ih =>
      obtain ⟨here, each⟩ := List.forall_mem_cons.1 each
      rw [List.flatMap_cons] at distinct ⊢
      rw [List.foldlM_cons] at done
      obtain ⟨after, middle, first, rest⟩ := Naming.bind_eq_ok done
      have others := ih each (List.pairwise_append.1 distinct).2.1 rest
      exact (here plan supply after middle first).append parsed others distinct

theorem Lays.foldlM_except {α : Type} {step : FilePlan → α → Except NameCollision FilePlan}
    {statements : α → List Place} {items : List α} {result : FilePlan} (parsed : source.IsParsed)
    (each : ∀ item ∈ items, ∀ before after, step before item = .ok after →
      Lays source (statements item) before.edits after.edits)
    (distinct : Distinct (items.flatMap statements)) (done : items.foldlM step plan = .ok result) :
    Lays source (items.flatMap statements) plan.edits result.edits := by
  induction items generalizing plan with
  | nil =>
      cases done
      exact .idle _ _
  | cons item items ih =>
      obtain ⟨here, each⟩ := List.forall_mem_cons.1 each
      rw [List.flatMap_cons] at distinct ⊢
      rw [List.foldlM_cons] at done
      obtain ⟨after, first, rest⟩ := exists_of_bind_eq_ok done
      have others := ih each (List.pairwise_append.1 distinct).2.1 rest
      exact (here plan after first).append parsed others distinct

/-- Statements that the first pass looks at in a declaration. -/
def statementsOf (decl : FunctionDecl) : List Place := decl.body.toList.flatMap fun body => body.sequences.flatten

theorem mem_sequences {body statement : Place} {statements : List Place} (listed : statements ∈ body.sequences)
    (member : statement ∈ statements) : Below body statement ∧ statement.kind ≠ .comment := by
  obtain ⟨block, met, rfl⟩ := List.mem_map.1 listed
  have below := Go.Place.mem_descendants.1 (List.mem_filter.1 met).1
  obtain ⟨node, part, rfl⟩ := List.mem_map.1 member
  exact ⟨below.trans (below_of_mem_parts member), (Edit.mem_parts part).2.2⟩

theorem distinct_sequences {sound : Nat → Prop} {body : Place} (annotated : Annotated sound body.node) :
    Distinct body.sequences.flatten := by
  unfold Distinct Place.sequences
  rw [← List.flatMap_def, List.pairwise_flatMap]
  constructor
  · intro block met
    have below := Go.Place.mem_descendants.1 (List.mem_filter.1 met).1
    refine List.pairwise_map.2 ((Edit.parts_pairwise (below.annotated annotated)).imp ?_)
    intro a b before same
    rw [same]
    exact Nat.le_trans (Nat.le_of_eq (congrArg Place.stop same).symm) before
  · refine ((Go.Place.descendants_pairwise annotated).filter _).imp_of_mem ?_
    rintro block block' met met' order statement member statement' member' rfl
    obtain ⟨node, part, rfl⟩ := List.mem_map.1 member
    obtain ⟨node', part', same⟩ := List.mem_map.1 member'
    -- what is around a statement tells the block
    have equal : block' = block := by
      cases block
      cases block'
      cases same
      rfl
    subst equal
    rcases order with inside | beside
    · exact absurd inside (Go.Place.not_inside_self _)
    · have below := Go.Place.mem_descendants.1 (List.mem_filter.1 met).1
      have bounds := (below_of_mem_parts member).within (below.annotated annotated)
      omega

theorem mem_statementsOf {decl : FunctionDecl} (parsed : source.IsParsed) (listed : decl ∈ FunctionDecl.all source)
    (member : statement ∈ statementsOf decl) :
    decl.place.start ≤ statement.start ∧ statement.stop ≤ decl.place.stop := by
  obtain ⟨body, found, inside⟩ := List.mem_flatMap.1 member
  obtain ⟨statements, sequence, inside⟩ := List.mem_flatten.1 inside
  rw [Option.mem_toList] at found
  have within := (mem_sequences sequence inside).1.within (FunctionDecl.annotated_body parsed listed found)
  have item := FunctionDecl.annotated_of_mem_parts parsed (FunctionDecl.of_mem_all listed).1
  have outer := item.shaped.chain.mem (FunctionDecl.body_spec parsed listed found).2.1
  exact ⟨Nat.le_trans outer.1 within.1, Nat.le_trans within.2 outer.2.2⟩

theorem distinct_statements (parsed : source.IsParsed) : Distinct ((FunctionDecl.all source).flatMap statementsOf) := by
  unfold Distinct
  rw [List.pairwise_flatMap]
  constructor
  · intro decl listed
    unfold statementsOf
    cases found : decl.body with
    | none => exact .nil
    | some body =>
        rw [Option.toList_some, List.flatMap_singleton]
        exact distinct_sequences (FunctionDecl.annotated_body parsed listed found)
  · refine (FunctionDecl.all_pairwise parsed).imp_of_mem ?_
    rintro decl decl' listed listed' before statement member _ member' rfl
    have bounds := mem_statementsOf parsed listed member
    have bounds' := mem_statementsOf parsed listed' member'
    omega

theorem injectDecl_lays (builtIn : setup.catalog = Catalog.builtIn) (parsed : source.IsParsed) {package : Nat}
    {packageName : String} {imports : Imports} {decl : FunctionDecl} {result : FilePlan}
    (listed : decl ∈ FunctionDecl.all source)
    (done : setup.injectDecl source package packageName imports plan decl = .ok result) :
    Lays source (statementsOf decl) plan.edits result.edits := by
  unfold injectDecl at done
  split at done
  · cases done
    exact .idle _ _
  · rename_i body found
    have annotated := FunctionDecl.annotated_body parsed listed found
    have distinct := distinct_sequences annotated
    have below := FunctionDecl.below_body parsed listed found
    dsimp only at done
    unfold injectBody at done
    rw [List.foldlM_map] at done
    have whole : statementsOf decl = body.sequences.flatMap id := by
      rw [statementsOf, found, Option.toList_some, List.flatMap_singleton, List.flatMap_id]
    rw [whole]
    rw [← List.flatMap_id] at distinct
    refine Lays.foldlM_naming parsed (fun statements sequence before supply after supply' stepped => ?_) distinct
      (Prod.ext done rfl)
    have apart : Distinct statements := (List.pairwise_flatMap.1 distinct).1 statements sequence
    refine injectSequence_lays builtIn parsed (fun statement member => ?_) apart stepped
    obtain ⟨inside, solid⟩ := mem_sequences sequence member
    exact ⟨below.trans inside, solid⟩

/-- What the first pass plans for a file is carried out. -/
theorem planInjections_accepted (builtIn : setup.catalog = Catalog.builtIn) {program : Program} {file : Nat}
    {entry : ProgramFile} (here : program.files[file]? = some entry) (parsed : entry.source.IsParsed)
    (done : setup.planInjections program file = .ok plan) : ∃ changed, entry.source.apply plan.edits = .ok changed := by
  unfold planInjections at done
  rw [here] at done
  cases known : program.packageOf? file with
  | none =>
      rw [known] at done
      cases done
      exact ⟨_, rfl⟩
  | some package =>
      rw [known] at done
      have walked := Lays.foldlM_except parsed (fun decl listed before after stepped =>
        injectDecl_lays builtIn parsed listed stepped) (distinct_statements parsed) done
      obtain ⟨new, leaves, edits, laid, once, _⟩ := walked
      rw [edits, List.nil_append]
      exact laid.accepted parsed (by simp) once

end Setup
end
end TraceWeave
