import TraceWeave.Proofs.Calm
import TraceWeave.Proofs.HandleBatch
import TraceWeave.Proofs.ImportGroups
import TraceWeave.Proofs.InjectBatch
import TraceWeave.Proofs.SoleFile
import TraceWeave.Proofs.Standstill

/-!
Every batch of edits is carried out. The two passes are dealt with on their own; tests, the agent and
imports only insert, or make one edit. A run over parsed files therefore never drops the edits of a file
because they do not fit together.
-/
namespace TraceWeave

open Go (Node Place Token Kind)
open Go.Node (Annotated)
open Go.Place (Below)

/-! Tests and the agent. -/

theorem testCallEdits_accepted {graph : CallGraph} {widened : Nat → Bool} {program : Program} {file : ProgramFile}
    (parsed : file.source.IsParsed) :
    ∃ changed, file.source.apply (testCallEdits graph widened program file) = .ok changed := by
  have beside : ∀ edit ∈ testCallEdits graph widened program file, file.source.Beside .block edit := by
    intro edit planned
    rcases List.mem_append.1 planned with inBody | atFile
    · obtain ⟨decl, listed, planned⟩ := List.mem_flatMap.1 inBody
      split at planned
      · cases planned
      · rename_i body found
        obtain ⟨call, met, planned⟩ := List.mem_filterMap.1 planned
        obtain ⟨callee, named, planned⟩ := Option.bind_eq_some_iff.1 planned
        have below := (FunctionDecl.below_body parsed listed found).trans (Go.Place.mem_descendants.1 met)
        exact beside_of_addArgument? parsed below (kind_of_widenedCallee? named) planned
    · exact fileLevelEdits_beside parsed edit atFile
  exact (Source.Laid.of_beside beside).accepted parsed (by simp) .nil

theorem bootstrapEdits_accepted {settings : Settings} {imports : Imports} {source : Source} {edits : List Edit}
    (parsed : source.IsParsed) (done : bootstrapEdits settings imports source = .ok edits) :
    ∃ changed, source.apply edits = .ok changed := by
  unfold bootstrapEdits at done
  split at done
  · cases done
    exact ⟨_, rfl⟩
  · rename_i decl first
    have listed := List.mem_of_find?_eq_some first
    split at done
    · cases done
      exact ⟨_, rfl⟩
    · rename_i body found
      split at done
      · split at done
        · cases done
        · cases done
          have kind := (FunctionDecl.body_spec parsed listed found).1
          obtain ⟨leaves, laid, few⟩ :=
            Source.laid_addAtStart parsed (FunctionDecl.below_body parsed listed found) kind _
          exact laid.accepted parsed (by simp) (few.nodup (List.nodup_singleton _))
      · cases done
        exact ⟨_, rfl⟩

/-! Imports. -/

/-- After the line feed of a line, or at the end of the text. -/
theorem Text.isBoundary_nextLine {source : String} {offset : Nat} (sound : isBoundary source offset = true) :
    isBoundary source (min (lineEnd source offset + 1) (size source)) = true := by
  obtain ⟨before, line, others, _, cut, _, last⟩ := Text.exists_restOfLine sound
  rcases last with rfl | ⟨rest, rfl⟩
  · have size := cut.size_source
    rw [byteCount_nil, Nat.add_zero] at size
    rw [Nat.min_eq_right (by omega)]
    exact isBoundary_size source
  · have next : Cut source (lineEnd source offset + byteCount ['\n']) _ rest := cut.step
    have one : byteCount ['\n'] = 1 := by decide
    rw [one] at next
    rw [Nat.min_eq_left next.le_size]
    exact next.isBoundary

namespace ImportEdit

variable {source : String} {specs : List Node} {spec : Node} {path : String} {list : Node}

theorem mem_groups {group : List Node} (listed : group ∈ groups source specs) (member : spec ∈ group) :
    spec ∈ specs := by
  rw [groups_eq_splitBy] at listed
  exact List.flatten_splitBy (joins source) specs ▸ List.mem_flatten.2 ⟨group, listed, member⟩

theorem mem_groupFor (member : spec ∈ groupFor source (groups source specs) path) : spec ∈ specs := by
  unfold groupFor at member
  split at member
  · rename_i group found
    exact mem_groups (List.mem_of_find?_eq_some found) member
  · cases last : (groups source specs).getLast? with
    | none =>
        rw [last] at member
        cases member
    | some group =>
        rw [last] at member
        exact mem_groups (List.mem_of_getLast? last) member

theorem offsetIn_sound {group : List Node} (annotated : ∀ spec ∈ group, Annotated (Token.Clear source) spec)
    (path : String) : Text.isBoundary source (offsetIn source group path) = true := by
  unfold offsetIn
  split
  · rename_i spec found
    exact Text.isBoundary_lineStart (annotated spec (List.mem_of_find?_eq_some found)).shaped.starts.boundary
  · split
    · rename_i last found
      exact Text.isBoundary_nextLine (annotated last (List.mem_of_getLast? found)).shaped.stops.boundary
    · exact Text.isBoundary_zero source

theorem mem_addAt {offset : Nat} {anchors : List (Nat × List String)} {anchor : Nat × List String}
    (member : anchor ∈ addAt offset path anchors) : anchor.1 = offset ∨ ∃ old ∈ anchors, anchor.1 = old.1 := by
  induction anchors with
  | nil =>
      rw [addAt, List.mem_singleton] at member
      exact .inl (by rw [member])
  | cons head rest ih =>
      obtain ⟨other, paths⟩ := head
      unfold addAt at member
      split at member
      · rename_i same
        rcases List.mem_cons.1 member with rfl | later
        · exact .inl same.symm
        · exact .inr ⟨anchor, List.mem_cons_of_mem _ later, rfl⟩
      · split at member
        · rcases List.mem_cons.1 member with rfl | old
          · exact .inl rfl
          · exact .inr ⟨anchor, old, rfl⟩
        · rcases List.mem_cons.1 member with rfl | later
          · exact .inr ⟨_, List.mem_cons_self, rfl⟩
          · rcases ih later with new | ⟨old, listed, same⟩
            · exact .inl new
            · exact .inr ⟨old, List.mem_cons_of_mem _ listed, same⟩

theorem anchors_sound {offset : String → Nat} (each : ∀ path, Text.isBoundary source (offset path) = true)
    (paths : List String) {anchors : List (Nat × List String)}
    (sound : ∀ anchor ∈ anchors, Text.isBoundary source anchor.1 = true) :
    ∀ anchor ∈ paths.foldl (fun anchors path => addAt (offset path) path anchors) anchors,
      Text.isBoundary source anchor.1 = true := by
  induction paths generalizing anchors with
  | nil => exact sound
  | cons path paths ih =>
      refine ih fun anchor member => ?_
      rcases mem_addAt member with same | ⟨old, listed, same⟩
      · exact same ▸ each path
      · exact same ▸ sound old listed

theorem intoBlock_inserts (annotated : Annotated (Token.Clear source) list)
    (closing : Text.isBoundary source (list.stop - 1) = true) (paths : List String) :
    ∀ edit ∈ intoBlock source list paths, edit.Inserts source := by
  intro edit planned
  unfold intoBlock at planned
  dsimp only at planned
  split at planned
  · split at planned
    · cases List.mem_singleton.1 planned
      exact Edit.inserts_insertAt _ (Text.isBoundary_lineStart closing)
    · cases List.mem_singleton.1 planned
      exact Edit.inserts_insertAt _ closing
  · obtain ⟨anchor, listed, rfl⟩ := List.mem_map.1 planned
    apply Edit.inserts_insertAt
    refine anchors_sound (fun path => offsetIn_sound (fun spec member => ?_) path) paths (by simp) anchor listed
    exact annotated.children spec (Edit.mem_parts (List.mem_filter.1 (mem_groupFor member)).1).1

variable {file : Source}

/-- The closing parenthesis of a block of imports. -/
theorem isBoundary_close
    (lexical : Node.Lexical ((Token.list file.text).filter Token.isProgram) list)
    (is : list.kind = .importSpecList) : Text.isBoundary file.text (list.stop - 1) = true := by
  obtain ⟨_, token, member, mark, stop⟩ := lexical.brackets (show list.kind.brackets? = some ("(", ")") by rw [is]; rfl)
  obtain ⟨⟨before, rest, cut⟩, size⟩ := Token.cut_of_isMark (c := ')') (List.mem_filter.1 member).1 mark
  have one : Char.utf8Size ')' = 1 := by decide
  have same : list.stop - 1 = token.start := by omega
  rw [same]
  exact cut.isBoundary

theorem exists_apply_of_inserts {edits : List Edit} (each : ∀ edit ∈ edits, edit.Inserts file.text) :
    ∃ changed, file.apply edits = .ok changed := by
  obtain ⟨text, performed⟩ := Edit.perform_of_inserts each
  exact Source.exists_apply performed

/-- The edits that add imports to a file are carried out. -/
theorem ofPaths_accepted (parsed : file.IsParsed) (paths : List String) :
    ∃ changed, file.apply (ofPaths file.text file.root paths) = .ok changed := by
  have annotated : Annotated (Token.Clear file.text) file.root := parsed.annotated
  have lexical := parsed.lexical .here
  unfold ofPaths
  split
  · exact ⟨_, rfl⟩
  · unfold forPaths
    dsimp only
    split
    · rename_i list found
      obtain ⟨item, listed, found⟩ := List.exists_of_findSome?_eq_some found
      have inItem := (Edit.mem_parts (List.mem_filter.1 listed).1).1
      have inList := (Edit.mem_parts (List.mem_of_find?_eq_some found)).1
      have kind : list.kind = .importSpecList := by simpa using List.find?_some found
      refine exists_apply_of_inserts (intoBlock_inserts ((annotated.children item inItem).children list inList) ?_ _)
      exact isBoundary_close ((lexical.children item inItem).children list inList) kind
    · split
      · rename_i declaration rest found
        unfold intoLone
        split
        · exact ⟨_, rfl⟩
        · have member : declaration ∈ file.root.parts.filter (·.kind == .importDeclaration) := by simp [found]
          have formed := annotated.children declaration (Edit.mem_parts (List.mem_filter.1 member).1).1
          obtain ⟨text, performed⟩ := Edit.perform_of_apart
            (List.forall_mem_singleton.2 (Edit.spans_replaceNode formed _)) (List.pairwise_singleton _ _)
          exact Source.exists_apply performed
      · split
        · rename_i clause found
          have formed := annotated.children clause (Edit.mem_parts (List.mem_of_find?_eq_some found)).1
          exact exists_apply_of_inserts (List.forall_mem_singleton.2 (Edit.inserts_stop formed _))
        · exact ⟨_, rfl⟩

end ImportEdit

/-! A run. -/

/-- Batches that the stages hand over for the files of a run. -/
inductive Setup.Hands (setup : Setup) (graph : CallGraph) (run : Run) : Nat → List Edit → Prop
  | injections {file : Nat} {plan : FilePlan} (done : setup.planInjections run.program file = .ok plan) :
      Hands setup graph run file plan.edits
  | handles {file : Nat} {site : HandleSite} {withDeferred : Bool} {made : HandleEdits} (same : site.setup = setup)
      (drawn : site.graph = graph) (found : run.program.source? file = some site.source)
      (done : site.fileEdits withDeferred = .ok made) : Hands setup graph run file made.edits
  | testCalls {file : Nat} {entry : ProgramFile} (widened : Nat → Bool)
      (here : run.program.files[file]? = some entry) :
      Hands setup graph run file (testCallEdits graph widened run.program entry)
  | agent {file : Nat} {source : Source} {edits : List Edit} (found : run.program.source? file = some source)
      (done : bootstrapEdits setup.settings (run.program.importsOf source) source = .ok edits) :
      Hands setup graph run file edits
  | imports {file : Nat} {source : Source} (paths : List String) (found : run.program.source? file = some source) :
      Hands setup graph run file (ImportEdit.ofPaths source.text source.root paths)

theorem Setup.Hands.accepted {setup : Setup} {graph : CallGraph} {run : Run} {file : Nat} {edits : List Edit}
    (hands : setup.Hands graph run file edits) (builtIn : setup.catalog = Catalog.builtIn)
    (parsed : run.program.IsParsed) {source : Source} (found : run.program.source? file = some source) :
    ∃ changed, source.apply edits = .ok changed := by
  obtain ⟨entry, here, rfl⟩ := Option.map_eq_some_iff.1 found
  have formed : entry.source.IsParsed := parsed entry (List.mem_of_getElem? here)
  cases hands with
  | injections done => exact planInjections_accepted builtIn here formed done
  | handles same _ found' done =>
      cases same
      have taken := Option.some.inj (found.symm.trans found')
      rw [taken] at formed ⊢
      exact HandleSite.fileEdits_accepted formed builtIn done
  | testCalls widened here' =>
      cases here.symm.trans here'
      exact testCallEdits_accepted formed
  | agent found' done =>
      cases found.symm.trans found'
      exact bootstrapEdits_accepted formed done
  | imports paths found' =>
      cases found.symm.trans found'
      exact ImportEdit.ofPaths_accepted formed paths

/-- A run over parsed files, without a word so far about edits that do not fit together. -/
structure Run.Sound (run : Run) : Prop where
  parsed : run.program.IsParsed
  calm : Calm run.findings

namespace Run.Sound

variable {run : Run} {file : Nat} {edits : List Edit}

theorem record {notes : List Diagnostic} (sound : run.Sound) (calm : Calm notes) : (run.record notes).Sound :=
  ⟨sound.parsed, sound.calm.append calm⟩

/-- The names of a file run out. -/
theorem recordName (sound : run.Sound) (path : String) (collision : NameCollision) :
    (run.recordFailure path (.name collision)).Sound :=
  sound.record (calm_single (by simp [Diagnostic.inFile]))

/-- A batch of a stage is carried out and leaves no finding. -/
theorem applyBatch {setup : Setup} {graph : CallGraph} (sound : run.Sound) (builtIn : setup.catalog = Catalog.builtIn)
    (hands : setup.Hands graph run file edits) (imports : List String) :
    (run.applyBatch file edits imports).2.Sound := by
  refine ⟨(run.applyBatch_evolves file edits imports).isParsed sound.parsed, ?_⟩
  unfold Run.applyBatch
  split
  · exact sound.calm
  · split
    · exact sound.calm
    · rename_i source found
      obtain ⟨changed, applied⟩ := hands.accepted builtIn sound.parsed found
      rw [applied]
      exact sound.calm

theorem foldl {step : Run → Nat → Run} (each : ∀ run file, run.Sound → (step run file).Sound) (files : List Nat)
    (sound : run.Sound) : (files.foldl step run).Sound := by
  induction files generalizing run with
  | nil => exact sound
  | cons file files ih => exact ih (each run file sound)

end Run.Sound

namespace Setup

variable {setup : Setup} {graph : CallGraph} {run : Run} {file : Nat}

theorem injectFile_sound (builtIn : setup.catalog = Catalog.builtIn) (graph : CallGraph) (sound : run.Sound) :
    (setup.injectFile run file).Sound := by
  unfold injectFile
  split
  · exact sound
  · split
    · exact sound.recordName _ _
    · rename_i plan done
      have hands : setup.Hands graph (run.record plan.notes) file plan.edits := .injections done
      have applied := (sound.record (planInjections_calm builtIn done)).applyBatch builtIn hands plan.imports
      dsimp only
      split
      · exact ⟨applied.parsed, applied.calm⟩
      · exact applied

theorem propagateFile_sound (builtIn : setup.catalog = Catalog.builtIn) (plan : HandlePlan) (sound : run.Sound) :
    (setup.propagateFile graph plan run file).Sound := by
  cases here : run.program.files[file]? with
  | none =>
      unfold propagateFile
      rw [here]
      exact sound
  | some entry =>
      obtain ⟨begun, made, alike, spoken, done, result⟩ := propagateFile_step setup graph plan here
      have ready : begun.Sound := by
        refine ⟨alike.program ▸ sound.parsed, fun note member => ?_⟩
        rcases spoken note member with old | new | failure
        · exact sound.calm note old
        · exact HandleSite.fileEdits_calm done note new
        · simp [failure]
      have hands : setup.Hands graph begun file made.edits := by
        refine .handles rfl rfl ?_ done
        rw [alike.program]
        exact Program.source?_of_getElem? here
      rw [result]
      exact ready.applyBatch builtIn hands made.imports

theorem resolveTestFile_sound (builtIn : setup.catalog = Catalog.builtIn) (sound : run.Sound) :
    (resolveTestFile graph run file).Sound := by
  unfold resolveTestFile
  split
  · exact sound
  · rename_i entry here
    have hands : setup.Hands graph run file (testCallEdits graph run.widened.contains run.program entry) :=
      .testCalls _ here
    exact sound.applyBatch builtIn hands []

theorem bootstrapFile_sound (builtIn : setup.catalog = Catalog.builtIn) (graph : CallGraph) (sound : run.Sound) :
    (setup.bootstrapFile run file).Sound := by
  unfold bootstrapFile
  split
  · exact sound
  · rename_i source found
    split
    · exact sound.recordName _ _
    · rename_i edits done
      have hands : setup.Hands graph run file edits := .agent found done
      exact sound.applyBatch builtIn hands _

theorem addImportsTo_sound (builtIn : setup.catalog = Catalog.builtIn) (graph : CallGraph) (sound : run.Sound) :
    (run.addImportsTo file).Sound := by
  unfold Run.addImportsTo
  split
  · exact sound
  · rename_i source found
    have hands (paths : List String) : setup.Hands graph run file (ImportEdit.ofPaths source.text source.root paths) :=
      .imports paths found
    exact sound.applyBatch builtIn (hands _) []

theorem propagate_sound (builtIn : setup.catalog = Catalog.builtIn) (graph : CallGraph) (sound : run.Sound) :
    (setup.propagate graph run).2.Sound := by
  have noted := sound.record (HandlePlan.calm_compute graph run.seeds)
  exact Run.Sound.foldl (fun _ _ sound => propagateFile_sound builtIn _ sound) _ ⟨noted.parsed, noted.calm⟩

theorem resolveTests_sound (builtIn : setup.catalog = Catalog.builtIn) (graph : CallGraph) (sound : run.Sound) :
    (resolveTests graph run).Sound := by
  unfold resolveTests
  split
  · exact sound
  · exact sound.foldl (fun _ _ sound => resolveTestFile_sound builtIn sound) _

theorem finish_sound (builtIn : setup.catalog = Catalog.builtIn) (graph : CallGraph) (sound : run.Sound) :
    (setup.finish run).Sound := by
  have made : (setup.bootstrap run).Sound := by
    unfold bootstrap
    split
    · exact sound.foldl (fun _ _ sound => bootstrapFile_sound builtIn graph sound) _
    · exact sound
  exact made.foldl (fun _ _ sound => addImportsTo_sound builtIn graph sound) _

theorem weave_sound (builtIn : setup.catalog = Catalog.builtIn) (graph : CallGraph) (sound : run.Sound) :
    (setup.weave graph run).Sound := by
  have injected : (setup.inject run).Sound :=
    sound.foldl (fun _ _ sound => injectFile_sound builtIn graph sound) _
  exact finish_sound builtIn graph (resolveTests_sound builtIn graph (propagate_sound builtIn graph injected))

end Setup

/-- Over parsed files every batch is carried out, and no run says that edits do not fit together. -/
theorem weave_withoutConflict {program : Program} (parsed : program.IsParsed) (settings : Settings)
    (graph : CallGraph) :
    let setup := Setup.ofProgram program Catalog.builtIn settings
    (∀ (run : Run) (file : Nat) (edits : List Edit) (source : Source), run.program.IsParsed →
      setup.Hands graph run file edits → run.program.source? file = some source →
      ∃ changed, source.apply edits = .ok changed) ∧
    (setup.weave graph (Run.ofProgram program setup)).program.IsParsed ∧
    ∀ finding ∈ (setup.weave graph (Run.ofProgram program setup)).findings, finding.kind ≠ .editConflict := by
  intro setup
  have builtIn : setup.catalog = Catalog.builtIn := rfl
  have begun : (Run.ofProgram program setup).Sound := ⟨parsed, setup.detection.calm_notes⟩
  have woven := Setup.weave_sound builtIn graph begun
  exact ⟨fun run file edits source formed hands found => hands.accepted builtIn formed found, woven.parsed, woven.calm⟩

/-- Requests one inside the other, in the handler of a server and on a goroutine. -/
def nestedRequests : String :=
  "package main\n\nimport \"net/http\"\n\nfunc main() \x7b\n\thttp.HandleFunc(\"/\", index)\n\tgo fetch(fetch(\"x\"))\n\x7d\n\n" ++
    "func index(w http.ResponseWriter, r *http.Request) \x7b\n\tfetch(fetch(\"x\"))\n\x7d\n\n" ++
    "func fetch(url string) string \x7b\n\tresp, err := http.Get(url)\n\tif err != nil \x7b return fetch(url) \x7d\n" ++
    "\treturn resp.Status\n\x7d\n"

theorem weave_withoutConflict_nestedRequests :
    ∃ program, Loader.load (soleDisk nestedRequests) "/" {} = .ok program ∧ program.IsParsed ∧
      let setup := Setup.ofProgram program Catalog.builtIn {}
      let woven := setup.weave (CallGraph.build program "nrTxn") (Run.ofProgram program setup)
      ∀ finding ∈ woven.findings, finding.kind ≠ .editConflict := by
  have opens : isMainFile nestedRequests = true := isMainFile_of_plain (by decide +kernel)
  have parsed := soleProgram_isParsed nestedRequests
  exact ⟨_, Loader.load_soleDisk opens, parsed, (weave_withoutConflict parsed {} _).2.2⟩

end TraceWeave
