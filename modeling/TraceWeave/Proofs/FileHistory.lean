import Mathlib.Data.List.Induction
import TraceWeave.Proofs.History

/-!
A file along the batches that are handed to it. The batches that fit are carried out one after the
other, and those that do not leave no trace.
-/
namespace TraceWeave

namespace Source

/-- The file after several batches. -/
def appliedAll (source : Source) (batches : List (List Edit)) : Source := batches.foldl applied source

/-- Those of several batches that fit when it is their turn. -/
def accepted : Source → List (List Edit) → List (List Edit)
  | _, [] => []
  | source, edits :: batches =>
      match source.apply edits with
      | .ok changed => edits :: changed.accepted batches
      | .error _ => source.accepted batches

/-- A text after several batches, all of which have to fit. -/
def rewritten (text : String) (batches : List (List Edit)) : Except EditError String :=
  batches.foldlM Edit.perform text

/-- A file is what a given text becomes through batches that were accepted. -/
structure Follows (source : Source) (name given : String) (batches : List (List Edit)) : Prop where
  path : source.path = name
  loaded : source.loaded = given
  parsed : source.IsParsed
  text : rewritten given batches = .ok source.text
  clean : source.dirty = false → source.text = given
  /-- A marked file was changed at some time, even if it has its old text again. -/
  marked : source.dirty = true ↔
    ∃ earlier edits, earlier ++ [edits] <+: batches ∧ rewritten given (earlier ++ [edits]) ≠ rewritten given earlier

variable {source changed : Source} {edits : List Edit} {error : EditError} {name given : String}
variable {batches : List (List Edit)}

theorem applied_of_ok (done : source.apply edits = .ok changed) : source.applied edits = changed := by
  rw [applied, done]

theorem applied_of_error (refused : source.apply edits = .error error) : source.applied edits = source := by
  rw [applied, refused]

theorem accepted_of_ok (done : source.apply edits = .ok changed) :
    source.accepted (edits :: batches) = edits :: changed.accepted batches := by
  rw [accepted, done]

theorem accepted_of_error (refused : source.apply edits = .error error) :
    source.accepted (edits :: batches) = source.accepted batches := by
  rw [accepted, refused]

theorem appliedAll_snoc (source : Source) (batches : List (List Edit)) (edits : List Edit) :
    source.appliedAll (batches ++ [edits]) = (source.appliedAll batches).applied edits := by
  rw [appliedAll, List.foldl_append]
  rfl

theorem accepted_append (source : Source) (batches more : List (List Edit)) :
    source.accepted (batches ++ more) = source.accepted batches ++ (source.appliedAll batches).accepted more := by
  induction batches generalizing source with
  | nil => rfl
  | cons edits batches ih =>
      rw [List.cons_append, appliedAll, List.foldl_cons]
      cases done : source.apply edits with
      | ok changed =>
          rw [accepted_of_ok done, accepted_of_ok done, applied_of_ok done, ih changed, appliedAll, List.cons_append]
      | error error =>
          rw [accepted_of_error done, accepted_of_error done, applied_of_error done, ih source, appliedAll]

theorem rewritten_snoc (text : String) (batches : List (List Edit)) (edits : List Edit) :
    rewritten text (batches ++ [edits]) = (rewritten text batches).bind fun middle => Edit.perform middle edits := by
  rw [rewritten, List.foldlM_append]
  refine congrArg (Except.bind _) (funext fun middle => ?_)
  rw [List.foldlM_cons]
  exact bind_pure _

theorem apply_eq_error_iff : source.apply edits = .error error ↔ Edit.perform source.text edits = .error error := by
  constructor
  · intro refused
    unfold apply at refused
    split at refused
    · cases refused
    · split at refused
      · rename_i performed
        rw [performed, Except.error.inj refused]
      · split at refused <;> cases refused
  · intro performed
    unfold apply
    split
    · rename_i empty
      rw [List.isEmpty_iff.1 empty, Edit.perform_nil] at performed
      cases performed
    · rw [performed]

theorem follows_load (path text : String) : (load path text).Follows path text [] := by
  refine ⟨rfl, rfl, isParsed_load path text, rfl, fun _ => rfl, ?_⟩
  constructor
  · intro contrary
    cases contrary
  · rintro ⟨earlier, edits, first, _⟩
    simp at first

theorem Follows.step (follows : source.Follows name given batches) (done : source.apply edits = .ok changed) :
    changed.Follows name given (batches ++ [edits]) := by
  have performed := perform_of_apply done
  have text : rewritten given (batches ++ [edits]) = .ok changed.text := by
    rw [rewritten_snoc, follows.text]
    exact performed
  have evolves := apply_evolves done
  rcases apply_cases done with rfl | ⟨updated, _, different, rfl⟩
  · refine ⟨follows.path, follows.loaded, follows.parsed, text, follows.clean, follows.marked.trans ?_⟩
    constructor
    · rintro ⟨earlier, last, first, differs⟩
      exact ⟨earlier, last, first.trans (List.prefix_append _ _), differs⟩
    · rintro ⟨earlier, last, first, differs⟩
      rcases List.prefix_concat_iff.1 first with whole | before
      · -- the last batch has left the text as it was
        obtain ⟨rfl, same⟩ := List.append_inj' whole rfl
        cases same
        exact absurd (text.trans follows.text.symm) differs
      · exact ⟨earlier, last, before, differs⟩
  · refine ⟨follows.path, follows.loaded, evolves.parsed follows.parsed, text, nofun, ?_⟩
    refine ⟨fun _ => ⟨batches, edits, List.prefix_rfl, ?_⟩, fun _ => rfl⟩
    rw [text, follows.text]
    intro same
    exact different (Except.ok.inj same)

theorem follows_appliedAll (path text : String) (batches : List (List Edit)) :
    ((load path text).appliedAll batches).Follows path text ((load path text).accepted batches) := by
  induction batches using List.reverseRecOn with
  | nil => exact follows_load path text
  | append_singleton batches edits ih =>
      rw [appliedAll_snoc, accepted_append]
      cases done : ((load path text).appliedAll batches).apply edits with
      | ok changed =>
          rw [accepted_of_ok done, applied_of_ok done]
          exact ih.step done
      | error error =>
          rw [accepted_of_error done, applied_of_error done, accepted, List.append_nil]
          exact ih

/-- A loaded file at any time. The next batch is one more that was accepted, or it leaves no trace. -/
theorem follows_accepted (path text : String) (batches : List (List Edit)) :
    let start := load path text
    let file := start.appliedAll batches
    file.Follows path text (start.accepted batches) ∧ ∀ edits,
      (∃ error, file.apply edits = .error error ∧ Edit.perform file.text edits = .error error ∧
        start.appliedAll (batches ++ [edits]) = file ∧ start.accepted (batches ++ [edits]) = start.accepted batches) ∨
      (∃ changed, file.apply edits = .ok changed ∧ Edit.perform file.text edits = .ok changed.text ∧
        start.appliedAll (batches ++ [edits]) = changed ∧
        start.accepted (batches ++ [edits]) = start.accepted batches ++ [edits]) := by
  intro start file
  refine ⟨follows_appliedAll path text batches, fun edits => ?_⟩
  rw [appliedAll_snoc, accepted_append]
  cases done : file.apply edits with
  | error error =>
      refine .inl ⟨error, rfl, apply_eq_error_iff.1 done, applied_of_error done, ?_⟩
      rw [accepted_of_error done, accepted, List.append_nil]
  | ok changed =>
      refine .inr ⟨changed, rfl, perform_of_apply done, applied_of_ok done, ?_⟩
      rw [accepted_of_ok done, accepted]

end Source

namespace Run

variable {start final : Run} {batches : List Batch} {file : Nat}

/-- The edits of the batches for a file. -/
def editsFor (file : Nat) (batches : List Batch) : List (List Edit) :=
  (batches.filter (·.file == file)).map (·.edits)

/-- Nothing but its batches changes a file. -/
theorem History.source?_eq (history : History start batches final) {source : Source}
    (found : start.program.source? file = some source) :
    final.program.source? file = some (source.appliedAll (editsFor file batches)) := by
  induction history with
  | nothing => exact found
  | note _ program _ ih =>
      rw [program]
      exact ih
  | @batch batches middle _ other edits imports ih =>
      rw [editsFor, List.filter_append, List.map_append]
      by_cases here : other = file
      · subst here
        rw [middle.applyBatch_source? ih edits imports, ← Source.appliedAll_snoc]
        simp [editsFor]
      · rw [(middle.applyBatch_evolves other edits imports).source?_of_untouched (Ne.symm here), ih]
        simp [editsFor, here]

theorem addImportsTo_leads (run : Run) (file : Nat) :
    run.Leads (fun batch => batch.file = file ∧ True) (run.addImportsTo file) := by
  unfold addImportsTo
  split
  · exact .refl run
  · exact .applyBatch run ⟨rfl, trivial⟩

theorem addImports_leads (run : Run) : run.Leads (fun _ => True) run.addImports :=
  (Leads.foldl addImportsTo_leads _ run).mono fun _ _ => trivial

end Run

theorem Setup.weave_leads (setup : Setup) (graph : CallGraph) (run : Run) :
    run.Leads (fun _ => True) (setup.weave graph run) := by
  rw [weave_eq_perform]
  refine Run.Leads.trans ?_ (Run.addImports_leads _)
  generalize [Stage.inject, .propagate, .resolveTests, .bootstrap] = stages
  induction stages generalizing run with
  | nil => exact .refl run
  | cons stage stages ih =>
      rw [List.foldl_cons]
      exact ((setup.perform_leads graph stage run).mono fun _ _ => trivial).trans (ih _)

/-- A woven file follows what was read for it. -/
theorem Setup.weave_follows {disk : Disk} {root : String} {selection : Selection} {program : Program}
    (loaded : Loader.load disk root selection = .ok program) (setup : Setup) (graph : CallGraph) :
    ∀ file ∈ (setup.weave graph (Run.ofProgram program setup)).program.files, ∃ text batches,
      disk.read (Path.join root file.source.path) = .ok text ∧
        file.source.Follows file.source.path text batches := by
  intro file member
  obtain ⟨batches, history, _⟩ := setup.weave_leads graph (Run.ofProgram program setup)
  obtain ⟨index, there⟩ := List.mem_iff_getElem?.1 member
  have found := Program.source?_of_getElem? there
  rcases history.evolves.source? index with ⟨_, missing⟩ | ⟨source, _, found', _, _, _⟩
  · cases found.symm.trans missing
  · obtain ⟨entry, here, rfl⟩ := Option.map_eq_some_iff.1 found'
    obtain ⟨path, text, read, same⟩ := Loader.load_isRead loaded entry (List.mem_of_getElem? here)
    have follows := Source.follows_appliedAll path text (Run.editsFor index batches)
    rw [← same, ← Option.some.inj (found.symm.trans (history.source?_eq found'))] at follows
    refine ⟨text, _, ?_, follows.path.symm ▸ follows⟩
    rw [follows.path]
    exact read

end TraceWeave
