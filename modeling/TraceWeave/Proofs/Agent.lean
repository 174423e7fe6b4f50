import TraceWeave.Proofs.Acceptance
import TraceWeave.Proofs.FreshNames
import TraceWeave.Proofs.Outline
import TraceWeave.Proofs.SoleFile

/-!
The agent at the start of `main`. A `main` that names the agent, and in whose text nothing makes one, is
opened with the lines that make it: they stand behind its brace, before every statement and so before
every use of the agent, and the error that they declare has a name of its own.
-/
namespace TraceWeave

open Go (Node Place Token Kind)
open Go.Node (Annotated)
open Go.Place (Below Inside)

/-! One insertion. -/

theorem Edit.perform_insertAt {source : String} {offset : Nat} (sound : Text.isBoundary source offset = true)
    (text : String) : Edit.perform source [.insertAt offset text] =
      .ok (Text.slice source 0 offset ++ text ++ Text.slice source offset (Text.size source)) := by
  have spans : Edit.Spans source (.insertAt offset text) := (Edit.inserts_insertAt text sound).spans
  rw [perform, inOrder, List.mergeSort_singleton, performFrom, refusal?_of_spans spans (Nat.zero_le _)]
  rfl

theorem Source.apply_text {source changed : Source} {edits : List Edit} {text : String} (some : edits ≠ [])
    (performed : Edit.perform source.text edits = .ok text) (applied : source.apply edits = .ok changed) :
    changed.text = text := by
  unfold Source.apply at applied
  rw [if_neg (by simpa using some), performed] at applied
  dsimp only at applied
  split at applied
  · rename_i same
    cases applied
    exact same.symm
  · cases applied
    rfl

/-! The start of a block. -/

namespace Go

variable {sound : Nat → Prop}

theorem Place.Below.eq_or_inside {top place : Place} (below : Below top place) : place = top ∨ Inside top place := by
  induction below with
  | here => exact .inl rfl
  | @inside place child _ member ih =>
      rcases ih with rfl | ⟨outer, listed, below⟩
      · exact .inr ⟨child, member, .here⟩
      · exact .inr ⟨outer, listed, below.inside member⟩

/-- What is below a place depends on its node alone. -/
theorem Place.Below.elsewhere {top place other : Place} (below : Below top place) (same : other.node = top.node) :
    ∃ place', Below other place' ∧ place'.node = place.node := by
  induction below with
  | here => exact ⟨other, .here, same⟩
  | @inside place child _ member ih =>
      obtain ⟨place', below', same'⟩ := ih
      exact ⟨place'.inside child, below'.inside (same' ▸ member), rfl⟩

theorem Node.mem_descendants_of_named {outer inner node : Node} (named : inner ∈ outer.named)
    (met : node ∈ inner.descendants) : node ∈ outer.descendants := by
  obtain ⟨place, listed, rfl⟩ := List.mem_map.1 met
  have child : Below (Place.ofRoot outer) ((Place.ofRoot outer).inside inner) := Place.Below.here.inside named
  obtain ⟨place', below, same⟩ := (Place.mem_descendants.1 listed).elsewhere (show ((Place.ofRoot outer).inside inner).node = _ from rfl)
  exact List.mem_map.2 ⟨place', Place.mem_descendants.2 (child.trans below), same⟩

/-- What is in a block, comments apart, is in one of its statements. -/
theorem Node.exists_statement {block node : Node} (annotated : Annotated sound block) (met : node ∈ block.descendants)
    (differs : node.kind ≠ block.kind) (solid : node.kind ≠ .comment) :
    ∃ statement ∈ block.statements, statement.start ≤ node.start := by
  obtain ⟨place, listed, rfl⟩ := List.mem_map.1 met
  rcases (Place.mem_descendants.1 listed).eq_or_inside with rfl | ⟨child, member, below⟩
  · exact absurd rfl differs
  · obtain ⟨inChildren, named⟩ := List.mem_filter.1 member
    have formed : Annotated sound child := annotated.children child inChildren
    refine ⟨child, List.mem_filter.2 ⟨inChildren, ?_⟩, (below.within formed).1⟩
    -- a comment has nothing inside, and the node is none
    have code : child.kind ≠ .comment := by
      intro comment
      rw [below.of_comment formed comment] at solid
      exact solid comment
    simp [named, code]

end Go

/-- An offset at the start of a block: behind its brace, and before all that it names and does. -/
structure AtStart (block : Node) (offset : Nat) : Prop where
  behind : block.start < offset
  statements : ∀ statement ∈ block.statements, offset ≤ statement.start
  names : ∀ node ∈ block.descendants, node.kind = .identifier → offset ≤ node.start

/-- Lines with the same white space before each of them, or with that of the first one at the end. -/
def Indented (lines : List String) (shown : String) : Prop :=
  ∃ indent, Text.isAllBlank indent = true ∧
    let text := String.join (lines.map fun line => indent ++ line ++ "\n")
    (shown = text ∨ shown = Text.trimStart text ++ indent)

/-- Lines put into a text at the start of a block. -/
def Opened (source : String) (block : Node) (lines : List String) (changed : String) : Prop :=
  ∃ offset shown, AtStart block offset ∧ Indented lines shown ∧
    changed = Text.slice source 0 offset ++ shown ++ Text.slice source offset (Text.size source)

theorem Text.isAllBlank_indentation (source : String) (offset : Nat) : isAllBlank (indentation source offset) = true := by
  unfold isAllBlank indentation
  rw [String.toList_ofList, List.all_eq_true]
  intro c member
  have blank := List.mem_takeWhile_imp member
  rcases Bool.or_eq_true_iff.1 blank with space | tab
  · rw [beq_iff_eq.1 space]
    decide
  · rw [beq_iff_eq.1 tab]
    decide

namespace Source

variable {source : Source} {place : Place} {first : Node} {offset : Nat}

/-- The brace of a block is on an earlier line than a statement with nothing before it on its line. -/
theorem start_lt_lineStart (parsed : source.IsParsed) (below : Below source.rootPlace place)
    (is : place.node.kind = .block) (listed : first ∈ place.node.statements)
    (starts : Text.startsLine source.text first.start = true) :
    place.node.start < Text.lineStart source.text first.start := by
  have annotated := below.annotated parsed.annotated
  have brackets : place.node.kind.brackets? = some ("\x7b", "\x7d") := by
    rw [is]
    rfl
  obtain ⟨⟨token, member, mark, start⟩, _⟩ := (parsed.lexical below).brackets brackets
  obtain ⟨⟨before, rest, cut⟩, _⟩ := Token.cut_of_isMark (c := '\x7b') (List.mem_filter.1 member).1 mark
  obtain ⟨inChildren, _, solid⟩ := Edit.mem_parts listed
  have inside := (annotated.shaped.opens (by rw [is]; rfl)).inside first inChildren solid
  have boundary := (annotated.children first inChildren).shaped.starts.boundary
  rw [start] at cut
  exact Text.lt_lineStart cut (by decide) boundary starts inside.1

/-- The first statement of a block, and before it nothing but white space. -/
theorem atStart_of_head (parsed : source.IsParsed) (below : Below source.rootPlace place)
    (is : place.node.kind = .block) (head : place.node.statements.head? = some first)
    (behind : place.node.start < offset) (early : offset ≤ first.start) : AtStart place.node offset := by
  have annotated := below.annotated parsed.annotated
  have all : ∀ statement ∈ place.node.statements, offset ≤ statement.start := by
    have order : place.node.statements.Pairwise fun a b => a.stop ≤ b.start := Edit.parts_pairwise annotated
    intro statement listed
    obtain ⟨rest, same⟩ := List.head?_eq_some_iff.1 head
    have size : first.start ≤ first.stop :=
      (annotated.children first (Edit.mem_parts (List.mem_of_head? head)).1).le
    rw [same] at order listed
    rcases List.mem_cons.1 listed with rfl | later
    · exact early
    · have := (List.pairwise_cons.1 order).1 statement later
      omega
  refine ⟨behind, all, fun node met identifier => ?_⟩
  obtain ⟨statement, listed, later⟩ :=
    Node.exists_statement annotated met (by simp [is, identifier]) (by simp [identifier])
  exact Nat.le_trans (all statement listed) later

/-- Lines at the start of a block with statements are put in. -/
theorem opened_addAtStart (parsed : source.IsParsed) (below : Below source.rootPlace place)
    (is : place.node.kind = .block) (busy : place.node.statements ≠ []) (lines : List String) :
    ∃ text, Edit.perform source.text [Edit.addAtStart source.text place.node lines] = .ok text ∧
      Opened source.text place.node lines text := by
  have annotated := below.annotated parsed.annotated
  cases head : place.node.statements.head? with
  | none => exact absurd (List.head?_eq_none_iff.1 head) busy
  | some first =>
      have listed := List.mem_of_head? head
      obtain ⟨inChildren, _, solid⟩ := Edit.mem_parts listed
      have boundary := (annotated.children first inChildren).shaped.starts.boundary
      have inside := (annotated.shaped.opens (by rw [is]; rfl)).inside first inChildren solid
      have blank := Text.isAllBlank_indentation source.text first.start
      unfold Edit.addAtStart
      rw [head]
      dsimp only
      unfold Edit.addBeforeFirst
      dsimp only
      split
      · rename_i starts
        have behind := start_lt_lineStart parsed below is listed starts
        have start := atStart_of_head parsed below is head behind (Nat.sub_le _ _)
        exact ⟨_, Edit.perform_insertAt (Text.isBoundary_lineStart boundary) _, _, _, start, ⟨_, blank, .inl rfl⟩, rfl⟩
      · have start := atStart_of_head parsed below is head inside.1 (Nat.le_refl _)
        exact ⟨_, Edit.perform_insertAt boundary _, _, _, start, ⟨_, blank, .inr rfl⟩, rfl⟩

end Source

/-! The lines that make the agent. -/

/-- The body of the first `main` of a file. -/
def Source.mainBody? (source : Source) : Option Place :=
  ((FunctionDecl.all source).find? fun decl => decl.name == "main" && decl.receiverType.isNone).bind (·.body)

/-- A body in which the agent is named. -/
def NamesAgent (settings : Settings) (source : Source) (body : Place) : Prop :=
  ∃ node ∈ body.node.descendants, node.kind = .identifier ∧ node.text source.text = settings.agent

variable {settings : Settings} {source : Source} {body : Place}

theorem Source.below_mainBody? (parsed : source.IsParsed) (main : source.mainBody? = some body) :
    Below source.rootPlace body ∧ body.node.kind = .block := by
  obtain ⟨decl, first, has⟩ := Option.bind_eq_some_iff.1 main
  have listed := List.mem_of_find?_eq_some first
  exact ⟨FunctionDecl.below_body parsed listed has, (FunctionDecl.body_spec parsed listed has).1⟩

/-- The first line declares the agent. -/
theorem agentLines_eq (settings : Settings) (imports : Imports) (failure : String) :
    ∃ value more, agentLines settings imports failure =
      (settings.agent ++ ", " ++ failure ++ " := " ++ value) :: more := by
  unfold agentLines
  simp only [String.append_assoc]
  exact ⟨_, _, rfl⟩

theorem bootstrapEdits_cases (imports : Imports) (parsed : source.IsParsed)
    (main : source.mainBody? = some body) (names : NamesAgent settings source body)
    (lacks : Text.contains (body.node.text source.text) agentMaker = false) :
    (∃ collision, bootstrapEdits settings imports source = .error collision) ∨
      ∃ failure, failure ≠ settings.agent ∧ bootstrapEdits settings imports source =
        .ok [Edit.addAtStart source.text body.node (agentLines settings imports failure)] := by
  obtain ⟨decl, first, has⟩ := Option.bind_eq_some_iff.1 main
  obtain ⟨node, met, identifier, spells⟩ := names
  have needs : needsAgent source.text settings.agent body.node = true := by
    rw [needsAgent, lacks, Bool.not_false, Bool.and_true]
    exact List.any_eq_true.2 ⟨node, met, by simp [identifier, spells]⟩
  unfold bootstrapEdits
  rw [first]
  dsimp only
  rw [has]
  dsimp only
  rw [if_pos needs]
  cases done : (NameSupply.forFunction source imports decl.place.node).fresh "agentInitError" with
  | error collision => exact .inl ⟨collision, rfl⟩
  | ok result =>
      obtain ⟨failure, supply⟩ := result
      refine .inr ⟨failure, ?_, rfl⟩
      -- the agent is among the names that the function uses
      rintro rfl
      refine (NameSupply.of_fresh_eq_ok done).2.1 (List.mem_append_right _ ?_)
      refine List.mem_map.2 ⟨node, List.mem_filter.2 ⟨?_, by simp [identifier]⟩, spells⟩
      obtain ⟨kind, child, _⟩ := FunctionDecl.body_spec parsed (List.mem_of_find?_eq_some first) has
      exact Node.mem_descendants_of_named (List.mem_filter.2 ⟨child, by rw [kind]; rfl⟩) met

/-! A run. -/

/-- Which packages there are decides what the imports of a text are called. -/
theorem Program.Evolves.importsOf {touched : Nat → Prop} {before after : Program} (evolves : Evolves touched before after)
    (source : Source) : after.importsOf source = before.importsOf source := by
  unfold Program.importsOf Program.declaredName? Program.packageAt? Program.package?
  rw [evolves.packages]

namespace Setup

variable {run : Run} {file : Nat}

theorem bootstrapFile_findings (setup : Setup) (run : Run) (file : Nat) :
    run.findings ⊆ (setup.bootstrapFile run file).findings := by
  unfold bootstrapFile
  split
  · exact List.Subset.refl _
  · split
    · exact List.subset_append_left _ _
    · exact run.applyBatch_findings _ _ _

/-- The names for the error of a file run out. -/
def Exhausted (run : Run) (source : Source) : Prop :=
  ∃ finding ∈ run.findings, finding.kind = .identifierCollision ∧ finding.file = some source.path

/-- The agent is made in a file. -/
theorem bootstrapFile_opens (setup : Setup) (parsed : run.program.IsParsed) (found : run.program.source? file = some source)
    (main : source.mainBody? = some body) (names : NamesAgent setup.settings source body)
    (lacks : Text.contains (body.node.text source.text) agentMaker = false) :
    Exhausted (setup.bootstrapFile run file) source ∨ ∃ changed failure, failure ≠ setup.settings.agent ∧
      (setup.bootstrapFile run file).program.source? file = some changed ∧
      Opened source.text body.node (agentLines setup.settings (run.program.importsOf source) failure) changed.text := by
  obtain ⟨entry, here, rfl⟩ := Option.map_eq_some_iff.1 found
  have formed : entry.source.IsParsed := parsed entry (List.mem_of_getElem? here)
  unfold bootstrapFile
  rw [found]
  dsimp only
  rcases bootstrapEdits_cases (run.program.importsOf entry.source) formed main names lacks with
    ⟨collision, failed⟩ | ⟨failure, differs, done⟩
  · rw [failed]
    exact .inl ⟨_, List.mem_append_right _ List.mem_cons_self, rfl, rfl⟩
  · rw [done]
    dsimp only
    refine .inr ⟨_, failure, differs, run.applyBatch_source? found _ _, ?_⟩
    obtain ⟨below, is⟩ := Source.below_mainBody? formed main
    have busy : body.node.statements ≠ [] := by
      obtain ⟨node, met, identifier, _⟩ := names
      obtain ⟨statement, member, _⟩ := Node.exists_statement (below.annotated formed.annotated) met
        (by simp [is, identifier]) (by simp [identifier])
      exact List.ne_nil_of_mem member
    obtain ⟨text, performed, opened⟩ := Source.opened_addAtStart formed below is busy
      (agentLines setup.settings (run.program.importsOf entry.source) failure)
    obtain ⟨changed, applied⟩ := Source.exists_apply performed
    rw [Source.applied, applied]
    dsimp only
    rw [Source.apply_text (List.cons_ne_nil _ _) performed applied]
    exact opened

/-- The agent is made where it is needed. -/
theorem bootstrap_opens (setup : Setup) (parsed : run.program.IsParsed) (wanted : setup.settings.bootstrap = true)
    (found : run.program.source? file = some source) (production : source.isTest = false)
    (package : (run.program.packageOf? file).any (·.name == "main") = true)
    (main : source.mainBody? = some body) (names : NamesAgent setup.settings source body)
    (lacks : Text.contains (body.node.text source.text) agentMaker = false) :
    Exhausted (setup.bootstrap run) source ∨ ∃ changed failure, failure ≠ setup.settings.agent ∧
      (setup.bootstrap run).program.source? file = some changed ∧
      Opened source.text body.node (agentLines setup.settings (run.program.importsOf source) failure) changed.text := by
  have member : file ∈ mainFiles run :=
    List.mem_filter.2 ⟨(Run.mem_filesWhere found).2 (by simp [production]), package⟩
  have distinct : (mainFiles run).Nodup := (run.filesWhere_nodup _).filter _
  obtain ⟨earlier, later, parts, _, _, before, after⟩ :=
    Run.foldl_turn setup.bootstrapFile_evolves distinct member run
  unfold bootstrap
  rw [if_pos wanted]
  generalize middle : earlier.foldl setup.bootstrapFile run = begun at before after
  have found' : begun.program.source? file = some source :=
    before.spares.trans found
  rcases bootstrapFile_opens setup (before.isParsed parsed) found' main names lacks with
    ⟨finding, noted, about⟩ | ⟨changed, failure, differs, made, opened⟩
  · refine .inl ⟨finding, ?_, about⟩
    rw [parts, List.foldl_append, List.foldl_cons, middle]
    exact subset_foldl setup.bootstrapFile_findings later _ noted
  · rw [before.importsOf source] at opened
    have final := after.spares.trans made
    exact .inr ⟨changed, failure, differs, final, opened⟩

end Setup

/-- What the passes make of a program. -/
def Setup.passed (setup : Setup) (program : Program) : Run :=
  let graph := CallGraph.build program setup.settings.handle
  resolveTests graph (setup.propagate graph (setup.inject (Run.ofProgram program setup))).2

/-! A router, stage by stage. -/

/-- A router in `main`, after a comment. -/
def routerInMain (comment : String) : String :=
  "package main\nimport (\n\"github.com/gin-gonic/gin\"\n)\nfunc main() \x7b\n" ++ comment ++ "r := gin.New()\n\x7d\n"

/-- A router in `main`, with its middleware. -/
def routedInMain (comment imports : String) : String :=
  "package main\nimport (\n\"github.com/gin-gonic/gin\"\n" ++ imports ++ ")\nfunc main() \x7b\n" ++ comment ++
    "r := gin.New()\nr.Use(nrgin.Middleware(NewRelicAgent))\n\x7d\n"

/-- A run in which a router got its middleware, the file now being `text`. -/
def routed (before text : String) : Run where
  program := { soleProgram before with files := [⟨⟨"main.go", before, text, Go.Tree.parse text, true⟩, 0⟩] }
  findings := []
  imports := [(0, Gin.middlewarePath)]

/-- The setup for a program that uses the router and no other library. -/
def routerSetup (before : String) (settings : Settings) : Setup :=
  ⟨Catalog.builtIn, settings, ⟨[1], (Detection.ofProgram (soleProgram before) Catalog.builtIn).modules⟩⟩

theorem routed_isParsed (before text : String) : (routed before text).program.IsParsed := by
  intro file member
  rw [List.mem_singleton.1 member]
  exact rfl

theorem ofProgram_router {before : String} (settings : Settings)
    (active : (Detection.ofProgram (soleProgram before) Catalog.builtIn).active = [1]) :
    Setup.ofProgram (soleProgram before) Catalog.builtIn settings = routerSetup before settings := by
  rw [Setup.ofProgram, routerSetup, ← active]

/-- A router needs no handle, so what the first pass makes of it is what the passes make of it. -/
theorem passes_routed (setup : Setup) (graph : CallGraph) (before text : String) :
    Setup.resolveTests graph (setup.propagate graph (routed before text)).2 = routed before text := by
  rw [Setup.propagate_idle graph rfl rfl]
  rfl

theorem inject_routed {settings : Settings} {before coded : String}
    (active : (Detection.ofProgram (soleProgram before) Catalog.builtIn).active = [1])
    (injected : ((routerSetup before settings).inject
        (.ofProgram (soleProgram before) (routerSetup before settings))).outline = (routed before coded).outline) :
    let setup := Setup.ofProgram (soleProgram before) Catalog.builtIn settings
    setup.inject (.ofProgram (soleProgram before) setup) = routed before coded := by
  intro setup
  rw [show setup = routerSetup before settings from ofProgram_router settings active]
  exact Run.eq_of_outline (((routerSetup before settings).inject_evolves _).isParsed (soleProgram_isParsed before))
    (routed_isParsed before coded) injected

/-! The passes, and then the agent. -/

/-- A `main` that names the agent when the passes are through, and in whose text no agent is made, is opened
with a declaration of the agent, unless names run out in its file. -/
theorem bootstrap_opensMain {program : Program} (parsed : program.IsParsed) {settings : Settings}
    (wanted : settings.bootstrap = true) {file : Nat} {source : Source} {body : Place} :
    let setup := Setup.ofProgram program Catalog.builtIn settings
    let run := setup.passed program
    run.program.source? file = some source → source.isTest = false →
      (run.program.packageOf? file).any (·.name == "main") = true → source.mainBody? = some body →
      NamesAgent settings source body → Text.contains (body.node.text source.text) agentMaker = false →
      (∃ finding ∈ (setup.bootstrap run).findings, finding.kind = .identifierCollision ∧ finding.file = some source.path) ∨
        ∃ changed failure value more, failure ≠ settings.agent ∧ (setup.bootstrap run).program.source? file = some changed ∧
          Opened source.text body.node ((settings.agent ++ ", " ++ failure ++ " := " ++ value) :: more) changed.text := by
  intro setup run found production package main names lacks
  have injected := setup.inject_evolves (Run.ofProgram program setup)
  have resolved : run.program.IsParsed :=
    (Setup.resolveTests_evolves _ _).isParsed ((setup.propagate_evolves _ _).isParsed (injected.isParsed parsed))
  rcases setup.bootstrap_opens resolved wanted found production package main names lacks with
    exhausted | ⟨changed, failure, differs, made, opened⟩
  · exact .inl exhausted
  · obtain ⟨value, more, lines⟩ := agentLines_eq settings (run.program.importsOf source) failure
    exact .inr ⟨changed, failure, value, more, differs, made, lines ▸ opened⟩

theorem bootstrap_opensMain_router :
    ∃ program source body, Loader.load (soleDisk (routerInMain "")) "/" {} = .ok program ∧
      let setup := Setup.ofProgram program Catalog.builtIn {}
      let run := setup.passed program
      run.program.source? 0 = some source ∧ source.isTest = false ∧
        (run.program.packageOf? 0).any (·.name == "main") = true ∧ source.mainBody? = some body ∧
        NamesAgent {} source body ∧ Text.contains (body.node.text source.text) agentMaker = false ∧
        ((∃ finding ∈ (setup.bootstrap run).findings, finding.kind = .identifierCollision ∧ finding.file = some source.path) ∨
          ∃ changed failure value more, failure ≠ "NewRelicAgent" ∧ (setup.bootstrap run).program.source? 0 = some changed ∧
            Opened source.text body.node (("NewRelicAgent" ++ ", " ++ failure ++ " := " ++ value) :: more) changed.text) := by
  have opens : isMainFile (routerInMain "") = true := isMainFile_of_plain (by decide +kernel)
  have loaded := Loader.load_soleDisk opens
  have injected := @inject_routed {} (routerInMain "") (routedInMain "" "") (by decide +kernel) (by decide +kernel)
  let source : Source := ⟨"main.go", routerInMain "", routedInMain "" "", .parse (routedInMain "" ""), true⟩
  have holds : source.mainBody?.any (fun body => needsAgent source.text "NewRelicAgent" body.node) = true := by
    decide +kernel
  obtain ⟨body, main, needs⟩ := (Option.any_eq_true _ _).1 holds
  rw [needsAgent, Bool.and_eq_true, Bool.not_eq_true', List.any_eq_true] at needs
  obtain ⟨⟨node, met, names⟩, lacks⟩ := needs
  have names : NamesAgent {} source body := ⟨node, met, by simpa using names⟩
  have passed : (Setup.ofProgram (soleProgram (routerInMain "")) Catalog.builtIn {}).passed (soleProgram (routerInMain "")) =
      routed (routerInMain "") (routedInMain "" "") := by
    rw [Setup.passed, injected, passes_routed]
  refine ⟨soleProgram (routerInMain ""), source, body, loaded, ?_⟩
  have found : ((Setup.ofProgram (soleProgram (routerInMain "")) Catalog.builtIn {}).passed
      (soleProgram (routerInMain ""))).program.source? 0 = some source := by rw [passed]; rfl
  have package : (((Setup.ofProgram (soleProgram (routerInMain "")) Catalog.builtIn {}).passed
      (soleProgram (routerInMain ""))).program.packageOf? 0).any (·.name == "main") = true := by rw [passed]; rfl
  have production : source.isTest = false := by decide +kernel
  exact ⟨found, production, package, main, names, lacks,
    bootstrap_opensMain (Loader.load_isParsed loaded) rfl found production package main names lacks⟩

/-- Whether the agent is named in a body and none of its declarations is of the agent. -/
def missesAgent (source agent : String) (body : Node) : Bool :=
  (body.descendants.any fun node => node.kind == .identifier && node.text source == agent) &&
    body.descendants.all fun node => node.kind != .shortVarDeclaration || (node.child? .left).all fun left =>
      left.parts.all fun name => name.text source != agent

/-- Whether each stage does what is expected of a router: `coded` is its text when all code is written. -/
def routesTo (settings : Settings) (before coded after : String) : Bool :=
  let program := soleProgram before
  let setup := routerSetup before settings
  let graph := CallGraph.build program "nrTxn"
  let written := routed before coded
  isMainFile before && (Detection.ofProgram program Catalog.builtIn).active == [1] &&
    (setup.inject (.ofProgram program setup)).outline == written.outline &&
    (Setup.resolveTests graph (setup.propagate graph written).2).outline == written.outline &&
    (setup.finish written).outline == (routed before after).outline

/-- Stage by stage, so that no evaluation has to keep what another one met. -/
theorem routesTo_of_stages {settings : Settings} {before coded after : String} (main : isMainFile before = true)
    (active : (Detection.ofProgram (soleProgram before) Catalog.builtIn).active = [1])
    (injected : ((routerSetup before settings).inject
        (.ofProgram (soleProgram before) (routerSetup before settings))).outline = (routed before coded).outline)
    (finished : ((routerSetup before settings).finish (routed before coded)).outline = (routed before after).outline) :
    routesTo settings before coded after = true := by
  simp only [routesTo, Bool.and_eq_true, beq_iff_eq]
  exact ⟨⟨⟨⟨main, active⟩, injected⟩, congrArg Run.outline (passes_routed _ _ before coded)⟩, finished⟩

/-- Each stage leaves nothing to know but the text, so that the next one can begin with the text alone. -/
theorem weave_routed {settings : Settings} {before coded after : String}
    (routes : routesTo settings before coded after = true) :
    Loader.load (soleDisk before) "/" {} = .ok (soleProgram before) ∧
      let setup := Setup.ofProgram (soleProgram before) Catalog.builtIn settings
      setup.weave (.build (soleProgram before) "nrTxn") (.ofProgram (soleProgram before) setup) = routed before after := by
  simp only [routesTo, Bool.and_eq_true, beq_iff_eq] at routes
  obtain ⟨⟨⟨⟨main, active⟩, injected⟩, _⟩, finished⟩ := routes
  refine ⟨Loader.load_soleDisk main, ?_⟩
  intro setup
  rw [Setup.weave, inject_routed active injected, passes_routed,
    show setup = routerSetup before settings from ofProgram_router settings active]
  have formed := routed_isParsed before coded
  exact Run.eq_of_outline ((Setup.addImports_evolves _).isParsed ((Setup.bootstrap_evolves _ _).isParsed formed))
    (routed_isParsed before after) finished

/-- A router after a comment that reads like a call. -/
def commentedRouter : String := routerInMain "// x.NewApplication(\n"

/-- What the run makes of it. -/
def commentedRouted : String := routedInMain "// x.NewApplication(\n" ("\t\"" ++ Gin.middlewarePath ++ "\"\n")

/-- A comment in `main` that reads like a call is taken for one that makes the agent. -/
theorem commentedMaker_missesAgent :
    ∃ program source body, Loader.load (soleDisk (routerInMain "// x.NewApplication(\n")) "/" {} = .ok program ∧
      let setup := Setup.ofProgram program Catalog.builtIn {}
      let woven := setup.weave (CallGraph.build program "nrTxn") (Run.ofProgram program setup)
      woven.program.source? 0 = some source ∧ (woven.program.packageOf? 0).any (·.name == "main") = true ∧
        source.mainBody? = some body ∧ NamesAgent {} source body ∧
        ∀ node ∈ body.node.descendants, node.kind = .shortVarDeclaration → ∀ left, node.child? .left = some left →
          ∀ name ∈ left.parts, name.text source.text ≠ "NewRelicAgent" := by
  have routes : routesTo {} commentedRouter (routedInMain "// x.NewApplication(\n" "") commentedRouted = true := by
    apply routesTo_of_stages <;> decide +kernel
  obtain ⟨loaded, woven⟩ := weave_routed routes
  let source : Source := ⟨"main.go", commentedRouter, commentedRouted, .parse commentedRouted, true⟩
  have holds : source.mainBody?.any (fun body => missesAgent commentedRouted "NewRelicAgent" body.node) = true := by
    decide +kernel
  obtain ⟨body, main, misses⟩ := (Option.any_eq_true _ _).1 holds
  rw [missesAgent, Bool.and_eq_true, List.any_eq_true, List.all_eq_true] at misses
  obtain ⟨⟨node, met, names⟩, others⟩ := misses
  refine ⟨soleProgram commentedRouter, source, body, loaded, ?_⟩
  intro setup run
  rw [show run = routed commentedRouter commentedRouted from woven]
  refine ⟨rfl, rfl, main, ⟨node, met, by simpa using names⟩, ?_⟩
  intro node met declares left has name listed
  have other := others node met
  rw [declares, has] at other
  have all : ∀ name ∈ left.parts, name.text source.text ≠ "NewRelicAgent" := by simpa using other
  exact all name listed

end TraceWeave
