import TraceWeave.Weave.Propagate

/-! Test files: calls of functions that took the handle pass `nil`, and nothing else changes. -/
namespace TraceWeave

open Go (Place)

/-- Edits for the calls in a test file. -/
def testCallEdits (graph : CallGraph) (widened : Nat → Bool) (program : Program) (file : ProgramFile) :
    List Edit :=
  let imports := program.importsOf file.source
  let inBodies := (FunctionDecl.all file.source).flatMap fun decl =>
    match decl.body with
    | none => []
    | some body =>
        let here := Surroundings.ofDecl program file.package imports decl
        body.descendants.filterMap fun call => do
          let callee ← widenedCallee? graph widened here file.source.text call
          Edit.addArgument? call.node callee.handleIndex "nil"
  inBodies ++ fileLevelEdits graph widened (.ofFile program file.package imports) file.source

namespace Setup

def resolveTestFile (graph : CallGraph) (run : Run) (file : Nat) : Run :=
  match run.program.files[file]? with
  | none => run
  | some entry =>
      (run.applyBatch file (testCallEdits graph run.widened.contains run.program entry) []).2

/-- Adapt every test file to the functions that took the handle. -/
def resolveTests (graph : CallGraph) (run : Run) : Run :=
  if run.widened.isEmpty then run else run.testFiles.foldl (resolveTestFile graph) run

end Setup
end TraceWeave
