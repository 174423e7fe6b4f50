import TraceWeave.Proofs.Tracking

/-!
Values that a binding in force may have missed. The new name is meant for the value that the old one had where it
was introduced. No statement in between assigns the old name itself, and one that gives it another value further
inside is reported, unless this happens on the left side of its own assignment.
-/
namespace TraceWeave

open Go (Node Place Token Kind)
open Go.Node (Annotated Lexical)
open Go.Place (Below Inside)

/-- What a statement or clause gives new values to. -/
def Go.Node.target? (node : Node) : Option Node :=
  match node.kind with
  | .shortVarDeclaration | .assignmentStatement | .rangeClause | .receiveStatement => node.child? .left
  | .incStatement | .decStatement => node.parts.head?
  | _ => none

namespace Go.Place

/-- A variable that gets a new value, at any depth below a place. -/
inductive Assigns (top : Place) : Place → Prop where
  | alone {place : Place} {assigned : Node} (below : Below top place) (target : place.node.target? = some assigned)
      (kind : assigned.kind = .identifier) : Assigns top (place.inside assigned)
  | listed {place : Place} {list assigned : Node} (below : Below top place) (target : place.node.target? = some list)
      (many : list.kind = .expressionList) (member : assigned ∈ list.parts) (kind : assigned.kind = .identifier) :
      Assigns top ((place.inside list).inside assigned)

variable {top place other : Place} {sound : Nat → Prop} {all : List Token} {node call : Node}

theorem mem_of_target? {target : Node} (found : node.target? = some target) : target ∈ node.children := by
  unfold Node.target? at found
  split at found
  case h_7 => cases found
  case h_5 | h_6 => exact (Edit.mem_parts (List.mem_of_head? found)).1
  all_goals exact List.mem_of_find?_eq_some found

theorem target?_of_argumentList (list : node.kind = .argumentList) : node.target? = none := by
  rw [Node.target?, list]

theorem Assigns.isBelow (assigns : Assigns top place) : Below top place := by
  cases assigns with
  | alone below target kind => exact below.inside (List.mem_filter.2 ⟨mem_of_target? target, by rw [kind]; rfl⟩)
  | listed below target many member kind =>
      obtain ⟨listed, named, _⟩ := Edit.mem_parts member
      exact (below.inside (List.mem_filter.2 ⟨mem_of_target? target, by rw [many]; rfl⟩)).inside
        (List.mem_filter.2 ⟨listed, named⟩)

theorem Assigns.kind (assigns : Assigns top place) : place.kind = .identifier := by
  cases assigns with
  | alone _ _ kind => exact kind
  | listed _ _ _ _ kind => exact kind

/-- A variable that gets a value is no argument. -/
theorem Assigns.outside_arguments (assigns : Assigns top place) {list : Node} {around : List Node}
    (outward : place.around = list :: around) : list.kind ≠ .argumentList := by
  intro kind
  cases assigns with
  | alone _ target _ =>
      cases outward
      cases (target?_of_argumentList kind).symm.trans target
  | listed _ _ many _ _ =>
      cases outward
      cases many.symm.trans kind

/-- An argument of the call of a statement, in the list of arguments. -/
theorem exists_in_arguments (annotated : Annotated sound top.node) (found : top.node.soleCall? = some call)
    (member : node ∈ call.callArguments) :
    ∃ list around, list.kind = .argumentList ∧ Below top ⟨node, list :: around⟩ := by
  obtain ⟨kind, around, leads⟩ := Leads.soleCall found
  obtain ⟨list, child, inner⟩ := (leads.isBelow.annotated annotated).argumentList kind
  rw [Node.callArguments, child] at member
  have leads := leads.into (List.mem_of_find?_eq_some child) (by rw [inner]; rfl)
  obtain ⟨listed, named, _⟩ := Edit.mem_parts member
  exact ⟨list, _, inner, leads.isBelow.inside (List.mem_filter.2 ⟨listed, named⟩)⟩

/-- Identifiers of one tree with the same span are one place. -/
theorem identifier_unique {source : String} (annotated : Annotated sound top.node)
    (lexical : Lexical ((Token.list source).filter Token.isProgram) top.node) (below : Below top place)
    (below' : Below top other) (kind : place.kind = .identifier) (same : other.node.isSame place.node = true) :
    other = place := by
  simp only [Node.isSame, Bool.and_eq_true, beq_iff_eq] at same
  have kind' : other.kind = .identifier := same.1.1.trans kind
  obtain ⟨bare, token, member, word, start, stop⟩ := (below.lexical lexical).word kind
  have bare' := ((below'.lexical lexical).word kind').1
  have wide := Token.list_wide (List.mem_filter.1 member).1 (by simp [word])
  rcases descendants_cases annotated below' below with equal | (inside | after) | (inside | after)
  · exact equal
  · exact absurd inside (not_inside_of_bare (below'.annotated annotated) bare' (by simp [kind]))
  · change other.node.stop ≤ place.node.start at after
    omega
  · exact absurd inside (not_inside_of_bare (below.annotated annotated) bare (by simp [kind']))
  · change place.node.stop ≤ other.node.start at after
    omega

end Go.Place

/-- A statement that gives a variable another value further inside is left as it is. -/
theorem NameUses.ambiguous_of_assigns {source name : String} {sound : Nat → Prop} {statement : Node} {assigned : Place}
    (annotated : Annotated sound statement) (lexical : Lexical ((Token.list source).filter Token.isProgram) statement)
    (assigns : (Place.ofRoot statement).Assigns assigned) (named : assigned.text source = name)
    (apart : (targets statement).any assigned.node.isSame = false) :
    identifiers source name statement ≠ [] ∧ ¬ AreArguments source name statement := by
  have use : assigned.node ∈ identifiers source name statement := by
    refine List.mem_filter.2 ⟨List.mem_map.2 ⟨assigned, Go.Place.mem_descendants.2 assigns.isBelow, rfl⟩, ?_⟩
    have kind : assigned.node.kind = .identifier := assigns.kind
    have text : assigned.node.text source = name := named
    simp [kind, text, apart]
  refine ⟨List.ne_nil_of_mem use, ?_⟩
  rintro ⟨call, found, each⟩
  obtain ⟨argument, member, same⟩ := each _ use
  have formed : Annotated sound (Place.ofRoot statement).node := annotated
  obtain ⟨list, around, kind, below⟩ := Go.Place.exists_in_arguments formed found member
  rw [Go.Node.isSame_comm] at same
  have equal := Go.Place.identifier_unique annotated lexical assigns.isBelow below assigns.kind same
  exact assigns.outside_arguments (congrArg Place.around equal).symm kind

/-- Only uses of a name are replaced. -/
theorem Binding.Settles.exists_use {binding : Binding} {path source : String} {line : Nat} {statement : Node}
    {outcome : List Edit × List Diagnostic} {edit : Edit} (settles : binding.Settles path source line statement outcome)
    (member : edit ∈ outcome.1) :
    ∃ use ∈ NameUses.identifiers source binding.name statement, edit = Edit.replaceNode use binding.replacement := by
  by_cases none : NameUses.identifiers source binding.name statement = []
  · rw [settles.unused none] at member
    cases member
  by_cases each : NameUses.AreArguments source binding.name statement
  · rw [settles.renamed none each] at member
    obtain ⟨use, uses, rfl⟩ := List.mem_map.1 member
    exact ⟨use, uses, rfl⟩
  · rw [settles.noted none each] at member
    cases member

/-- What is in force at a statement has been in force since it was introduced. -/
theorem Binding.inForce_between {source : String} {statements : List Node} {introduced : List (List Binding)}
    {binding : Binding} {earlier middle position : Nat} (after : earlier < middle) (before : middle < position)
    (added : binding ∈ introduced.getD earlier [])
    (keeps : ∀ statement ∈ (statements.take position).drop (earlier + 1),
      binding.name ∉ statement.assignedNames source) :
    binding ∈ inForce source statements introduced middle := by
  refine mem_inForce.2 ⟨earlier, after, added, fun statement member => keeps statement ?_⟩
  exact ((List.take_prefix_take_left (Nat.le_of_lt before)).sublist.drop _).subset member

namespace Setup

variable {setup : Setup} {site : InjectionSite} {imports : Imports} {statements : List Node}
  {codes : List (FilePlan × List Binding)} {before after plan first last : FilePlan}
  {blocks : List (InjectionSite × List Node)} {position : Nat} {binding : Binding} {statement : Node} {edit : Edit}

/-- The statements between the one that introduces a binding and one that the binding renames arguments of: none
assigns the name, and where one gives it another value further inside, there is a finding about it. -/
structure Renames (site : InjectionSite) (statements : List Node) (introduced : List (List Binding))
    (notes : List Diagnostic) (position : Nat) (edit : Edit) (binding : Binding) (earlier : Nat) : Prop where
  before : earlier < position
  introduced : binding ∈ introduced.getD earlier []
  renames : ∃ statement use, statements[position]? = some statement ∧
    use ∈ NameUses.identifiers site.source.text binding.name statement ∧
      edit = Edit.replaceNode use binding.replacement
  keeps : ∀ middle statement, earlier < middle → middle < position → statements[middle]? = some statement →
    binding.name ∉ statement.assignedNames site.source.text
  reports : ∀ middle statement, earlier < middle → middle < position → statements[middle]? = some statement →
    ∀ assigned, (Place.ofRoot statement).Assigns assigned → assigned.text site.source.text = binding.name →
      (NameUses.targets statement).any assigned.node.isSame = false →
        binding.ambiguity site.source.path (site.source.nodeLine statement) ∈ notes

theorem Tracks.mem_notes (tracks : setup.Tracks imports site statements codes before after)
    (here : statements[position]? = some statement)
    (active : binding ∈ Binding.inForce site.source.text statements (codes.map (·.2)) position)
    (used : NameUses.identifiers site.source.text binding.name statement ≠ [])
    (other : ¬ NameUses.AreArguments site.source.text binding.name statement) :
    binding.ambiguity site.source.path (site.source.nodeLine statement) ∈ after.notes := by
  have outcome := (tracks.settles statement binding).noted used other
  rw [tracks.notes]
  have place : position < statements.length := (List.getElem?_eq_some_iff.1 here).1
  refine List.mem_append_right _ (List.mem_flatMap.2 ⟨position, List.mem_range.2 place, ?_⟩)
  rw [tracks.turns position statement here, List.flatMap_map]
  refine List.mem_flatMap.2 ⟨binding, active, ?_⟩
  rw [outcome]
  exact List.mem_singleton_self _

/-- A name is put in the place of another one only for a binding in force. -/
theorem Tracks.exists_renames (tracks : setup.Tracks imports site statements codes before after)
    {sound : Nat → Prop} (annotated : ∀ statement ∈ statements, Annotated sound statement)
    (lexical : ∀ statement ∈ statements, Lexical ((Token.list site.source.text).filter Token.isProgram) statement)
    (renamed : edit ∈ (site.turn [] statements (codes.map (·.2)) position).flatMap (·.1)) :
    ∃ binding earlier, Renames site statements (codes.map (·.2)) after.notes position edit binding earlier := by
  cases here : statements[position]? with
  | none =>
      rw [InjectionSite.turn, here] at renamed
      cases renamed
  | some statement =>
      rw [tracks.turns position statement here, List.flatMap_map] at renamed
      obtain ⟨binding, active, renamed⟩ := List.mem_flatMap.1 renamed
      obtain ⟨earlier, before, added, keeps⟩ := (tracks.inForce position binding).1 active
      have between : ∀ middle statement, earlier < middle → middle < position → statements[middle]? = some statement →
          statement ∈ (statements.take position).drop (earlier + 1) := by
        intro middle statement after before here
        refine List.mem_iff_getElem?.2 ⟨middle - (earlier + 1), ?_⟩
        rw [List.getElem?_drop, Nat.add_sub_cancel' after, List.getElem?_take, if_pos before, here]
      refine ⟨binding, earlier, before, added, ⟨statement, ?_⟩, ?_, ?_⟩
      · obtain ⟨use, uses, rfl⟩ := (tracks.settles statement binding).exists_use renamed
        exact ⟨use, here, uses, rfl⟩
      · exact fun middle statement after before here => keeps statement (between middle statement after before here)
      · intro middle statement after before here assigned assigns named apart
        have member := List.mem_of_getElem? here
        obtain ⟨used, other⟩ := NameUses.ambiguous_of_assigns (annotated statement member) (lexical statement member)
          assigns named apart
        exact tracks.mem_notes here (Binding.inForce_between after before added keeps) used other

theorem Tracks.grows (tracks : setup.Tracks imports site statements codes before after) :
    before.edits <+: after.edits ∧ before.notes <+: after.notes :=
  ⟨⟨_, tracks.edits.symm⟩, ⟨_, tracks.notes.symm⟩⟩

theorem TracksAll.grows (all : setup.TracksAll imports blocks first last) :
    first.edits <+: last.edits ∧ first.notes <+: last.notes := by
  induction all with
  | nil => exact ⟨List.prefix_rfl, List.prefix_rfl⟩
  | cons tracks _ ih => exact ⟨tracks.grows.1.trans ih.1, tracks.grows.2.trans ih.2⟩

/-- Each of the blocks has its part in the plan. -/
theorem TracksAll.exists_tracks (all : setup.TracksAll imports blocks first last) {block : InjectionSite × List Node}
    (member : block ∈ blocks) :
    ∃ codes before after, setup.Tracks imports block.1 block.2 codes before after ∧ after.edits <+: last.edits ∧
      after.notes <+: last.notes := by
  induction all with
  | nil => cases member
  | cons tracks others ih =>
      rcases List.mem_cons.1 member with rfl | later
      · exact ⟨_, _, _, tracks, others.grows⟩
      · exact ih later

/-- Statements of the blocks are nodes of the tree. -/
theorem mem_blocksOf {source : Source} {package : Nat} {packageName : String} (parsed : source.IsParsed)
    {block : InjectionSite × List Node}
    (member : block ∈ blocksOf source package packageName (FunctionDecl.all source)) :
    block.1.source = source ∧ ∀ statement ∈ block.2, ∃ place, Below source.rootPlace place ∧ place.node = statement := by
  obtain ⟨decl, listed, member⟩ := List.mem_flatMap.1 member
  obtain ⟨body, found, member⟩ := List.mem_flatMap.1 member
  obtain ⟨statements, sequence, rfl⟩ := List.mem_map.1 member
  refine ⟨rfl, fun statement member => ?_⟩
  obtain ⟨place, inside, rfl⟩ := List.mem_map.1 member
  have below := FunctionDecl.below_body parsed listed (Option.mem_toList.1 found)
  exact ⟨place, below.trans (mem_sequences sequence inside).1, rfl⟩

/-- A name takes the place of another one only where it may: no statement since the one that introduced it assigns
the old name, and there is a finding about each that gives the old name another value further inside, the left side
of the statement's own assignment apart. -/
theorem planInjections_renames {program : Program} {file : Nat} {entry : ProgramFile} {package : Package}
    (here : program.files[file]? = some entry) (known : program.packageOf? file = some package)
    (parsed : entry.source.IsParsed) (done : setup.planInjections program file = .ok plan) :
    ∀ block ∈ blocksOf entry.source entry.package package.name (FunctionDecl.all entry.source),
      ∃ codes before after, setup.Tracks (program.importsOf entry.source) block.1 block.2 codes before after ∧
        after.edits <+: plan.edits ∧ after.notes <+: plan.notes ∧
        ∀ position edit, edit ∈ (block.1.turn [] block.2 (codes.map (·.2)) position).flatMap (·.1) →
          ∃ binding earlier, Renames block.1 block.2 (codes.map (·.2)) after.notes position edit binding earlier := by
  intro block member
  unfold planInjections at done
  rw [here, known] at done
  obtain ⟨codes, before, after, tracks, edits, notes⟩ := (injectDecls_tracksAll done).exists_tracks member
  obtain ⟨same, places⟩ := mem_blocksOf parsed member
  refine ⟨codes, before, after, tracks, edits, notes, fun position edit renamed => ?_⟩
  have annotated : ∀ statement ∈ block.2, Annotated (Token.Whole entry.source.text) statement := by
    intro statement listed
    obtain ⟨place, below, rfl⟩ := places statement listed
    exact below.annotated parsed.whole
  refine tracks.exists_renames annotated (fun statement listed => ?_) renamed
  obtain ⟨place, below, rfl⟩ := places statement listed
  rw [same]
  exact parsed.lexical below

theorem planInjections_renames_branchingCode :
    ∃ entry package plan, branchingCode.files[0]? = some entry ∧ branchingCode.packageOf? 0 = some package ∧
      entry.source.IsParsed ∧ branchingSetup.planInjections branchingCode 0 = .ok plan ∧
      ∀ block ∈ blocksOf entry.source entry.package package.name (FunctionDecl.all entry.source),
        ∃ codes before after,
          branchingSetup.Tracks (branchingCode.importsOf entry.source) block.1 block.2 codes before after ∧
          after.edits <+: plan.edits ∧ after.notes <+: plan.notes ∧
          ∀ position edit, edit ∈ (block.1.turn [] block.2 (codes.map (·.2)) position).flatMap (·.1) →
            ∃ binding earlier, Renames block.1 block.2 (codes.map (·.2)) after.notes position edit binding earlier := by
  obtain ⟨plan, done, _⟩ := exists_of_any_toOption branchingCode_planned
  have parsed := branchingCode_isParsed _ List.mem_cons_self
  exact ⟨_, _, plan, rfl, rfl, parsed, done, planInjections_renames rfl rfl parsed done⟩

/-- The use of the handler in the last statement gets the new name, although the branch before it gives the handler
another value. -/
theorem branchingCode_revivesHandler :
    ∃ plan site first branch last use edit, branchingSetup.planInjections branchingCode 0 = .ok plan ∧
      (site, [first, branch, last]) ∈ branchingCode.files.flatMap (fun entry =>
        blocksOf entry.source 0 "main" (FunctionDecl.all entry.source)) ∧
      (∃ inner ∈ branch.descendants, inner.assignedNames site.source.text = ["h"]) ∧
      use ∈ NameUses.identifiers site.source.text "h" last ∧ edit ∈ plan.edits ∧
      edit.start = use.start ∧ edit.stop = use.stop ∧ edit.text = "NRh" := by
  obtain ⟨plan, done, planned⟩ := exists_of_any_toOption branchingCode_planned
  obtain ⟨entry, listed, planned⟩ := List.any_eq_true.1 planned
  obtain ⟨⟨site, statements⟩, block, planned⟩ := List.any_eq_true.1 planned
  have same : site.source = entry.source := (mem_blocksOf (branchingCode_isParsed entry listed) block).1
  dsimp only at planned
  split at planned
  · rename_i first branch last
    simp only [Bool.and_eq_true, List.any_eq_true, beq_iff_eq] at planned
    obtain ⟨⟨_, inner, below, assigns⟩, edit, made, use, uses, ⟨start, stop⟩, text⟩ := planned
    refine ⟨plan, site, first, branch, last, use, edit, done, List.mem_flatMap.2 ⟨entry, listed, block⟩, ?_⟩
    rw [same]
    exact ⟨⟨inner, below, assigns⟩, uses, made, start, stop, text⟩
  · cases planned

end Setup
end TraceWeave
