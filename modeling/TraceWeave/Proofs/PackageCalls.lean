import TraceWeave.Proofs.InjectBatch
import TraceWeave.Proofs.Shadowing

/-!
Calls that integrations take for calls of a package. They go by the imports of the file alone, while the
resolver looks for local declarations first. The two agree on what is called exactly where no declaration
of the name that the resolver reads is in force.
-/
namespace TraceWeave

open Go (Kind Node Place)
open Go.Place (Below)

/-- What a selector is that names something of an imported package. -/
def Program.imported (program : Program) (path field : String) : SelectorTarget :=
  match program.packageAt? path with
  | some package => .resolved (.function package field)
  | none => .external

/-- A statement whose call is `operand.field`, as places. -/
structure Selects (text : String) (statement : Place) (call : Node) (field : String) (callee operand : Place) : Prop where
  below : Below statement callee
  function : call.child? .function = some callee.node
  selector : callee.kind = .selectorExpression
  child : callee.child? .operand = some operand
  word : operand.kind = .identifier
  named : (callee.child? .field).map (·.text text) = some field

section
variable {text field : String} {statement callee operand : Place} {call : Node}

theorem Selects.below_operand (selects : Selects text statement call field callee operand) : Below statement operand :=
  selects.below.child? selects.child (by rw [selects.word]; rfl)

/-- A statement that makes a call of a package has the operand of the call in it. -/
theorem exists_selects {view : StatementView} {path : String} (shows : view.node = statement.node)
    (found : view.packageCall? path = some (call, field)) :
    ∃ callee operand, Selects view.source statement call field callee operand ∧
      view.imports.pathFor? (operand.text view.source) = some path := by
  have sole := StatementView.soleCall?_of_packageCall? found
  obtain ⟨call', sole', found⟩ := Option.bind_eq_some_iff.1 found
  cases sole.symm.trans sole'
  obtain ⟨⟨name, field'⟩, parts, found⟩ := Option.bind_eq_some_iff.1 found
  obtain ⟨callee, function, parts⟩ := Option.bind_eq_some_iff.1 parts
  dsimp only at found
  split at found
  · rename_i path
    cases found
    rw [shows] at sole
    obtain ⟨_, around, leads⟩ := Go.Place.Leads.soleCall sole
    unfold Node.selectorParts? at parts
    split at parts
    · rename_i selector
      split at parts
      · rename_i operand label first second
        split at parts
        · rename_i word
          cases parts
          rw [beq_iff_eq] at selector word path
          let place : Place := (⟨call, around⟩ : Place).inside callee
          have below : Below statement place :=
            leads.isBelow.inside (List.mem_filter.2 ⟨List.mem_of_find?_eq_some function, by rw [selector]; rfl⟩)
          have labelled : place.child? .field = some (place.inside label) := congrArg (Option.map place.inside) second
          refine ⟨place, place.inside operand, ⟨below, function, selector, ?_, word, by rw [labelled]; rfl⟩, path⟩
          exact congrArg (Option.map place.inside) first
        · cases parts
      · cases parts
    · cases parts
  · cases found

theorem Surroundings.selector?_selects (here : Surroundings) (selects : Selects text statement call field callee operand) :
    here.selector? text callee = some
      (match LocalName.at? text (operand.text text) operand with
      | some found => here.methodOf (found.typeRef? text) field
      | none => here.fieldOutside (operand.text text) field) := by
  obtain ⟨label, second, rfl⟩ := Option.map_eq_some_iff.1 selects.named
  unfold selector?
  rw [selects.selector, second, selects.child]
  simp only [beq_self_eq_true, if_true, bind, Option.bind, selects.word, bne_self_eq_false, Bool.false_eq_true, if_false]
  cases LocalName.at? text (operand.text text) operand <;> rfl

end

/-- A type never leads to a function of a package. -/
theorem Surroundings.methodOf_ne_function (here : Surroundings) (type : Option TypeRef) (field : String) (package : Nat) :
    here.methodOf type field ≠ .resolved (.function package field) := by
  unfold methodOf
  split
  · simp
  · simp [FunctionKey.method, FunctionKey.function]
  · split <;> simp [FunctionKey.method, FunctionKey.function]

theorem StatementView.of_mem_ofSequence {text : String} {imports : Imports} {statements : List Place} {view : StatementView}
    (member : view ∈ ofSequence text imports (statements.map (·.node))) :
    (∃ statement ∈ statements, view.node = statement.node) ∧ view.source = text ∧ view.imports = imports := by
  obtain ⟨⟨node, index⟩, listed, rfl⟩ := List.mem_map.1 member
  obtain ⟨statement, inside, same⟩ := List.mem_map.1 (List.fst_mem_of_mem_zipIdx listed)
  exact ⟨⟨statement, inside, same.symm⟩, rfl, rfl⟩

/-- What the resolver makes of a statement that is taken for a call of a package. It takes the call for one of
that package as well if no declaration of the name that it reads is in force, which is not the receiver's
either; otherwise it goes by the declaration, and never arrives at a function of a package. -/
theorem packageCall?_agrees {program : Program} (parsed : program.IsParsed) {file : ProgramFile}
    (listed : file ∈ program.files) {decl : FunctionDecl} (declared : decl ∈ FunctionDecl.all file.source)
    {body : Place} (found : decl.body = some body) {statements : List Place} (sequence : statements ∈ body.sequences)
    {view : StatementView}
    (shown : view ∈ StatementView.ofSequence file.source.text (program.importsOf file.source) (statements.map (·.node)))
    {path field : String} {call : Node} (recognised : view.packageCall? path = some (call, field)) :
    let text := file.source.text
    let here := Surroundings.ofDecl program file.package (program.importsOf file.source) decl
    ∃ statement ∈ statements, ∃ callee operand, view.node = statement.node ∧
      Selects text statement call field callee operand ∧
      (program.importsOf file.source).pathFor? (operand.text text) = some path ∧
      (¬ operand.Sees (LocalName.Declares text (operand.text text)) → decl.receiverName ≠ some (operand.text text) →
        here.selector? text callee = some (program.imported path field)) ∧
      (operand.Sees (LocalName.Declares text (operand.text text)) →
        ∃ local_, LocalName.at? text (operand.text text) operand = some local_ ∧
          here.selector? text callee = some (here.methodOf (local_.typeRef? text) field) ∧
          ∀ package, here.selector? text callee ≠ some (.resolved (.function package field))) := by
  intro text here
  obtain ⟨⟨statement, member, shows⟩, source, imports⟩ := StatementView.of_mem_ofSequence shown
  obtain ⟨callee, operand, selects, imported⟩ := exists_selects shows recognised
  rw [imports, source] at imported
  rw [source] at selects
  have formed := parsed file listed
  have inside : Below file.source.rootPlace operand :=
    ((FunctionDecl.below_body formed declared found).trans (Setup.mem_sequences sequence member).1).trans selects.below_operand
  have seen := formed.isSome_at? inside selects.word (operand.text text)
  have target := here.selector?_selects selects
  refine ⟨statement, member, callee, operand, shows, selects, imported, ?_, ?_⟩
  · intro unseen other
    have missing : LocalName.at? text (operand.text text) operand = none :=
      Option.not_isSome_iff_eq_none.1 fun contrary => unseen (seen.1 contrary)
    have outside : (here.receiverName == some (operand.text text)) = false := beq_eq_false_iff_ne.2 other
    have known : here.imports.pathFor? (operand.text text) = some path := imported
    rw [target, missing]
    dsimp only
    rw [Surroundings.fieldOutside, outside, Bool.and_false, if_neg Bool.false_ne_true, known]
    rfl
  · intro sees
    obtain ⟨local_, declares⟩ := Option.isSome_iff_exists.1 (seen.2 sees)
    have resolved : here.selector? text callee = some (here.methodOf (local_.typeRef? text) field) := by
      rw [target, declares]
    refine ⟨local_, declares, resolved, fun package same => ?_⟩
    exact here.methodOf_ne_function _ field package (Option.some.inj (resolved.symm.trans same))

/-- `main` makes a request. -/
def plainRequest : String := "package main\n\nimport \"net/http\"\n\nfunc main() \x7b\n\thttp.Get(\"x\")\n\x7d\n"

theorem packageCall?_agrees_plainRequest :
    ∃ program file decl body statements view call, Loader.load (soleDisk plainRequest) "/" {} = .ok program ∧
      program.IsParsed ∧ file ∈ program.files ∧ decl ∈ FunctionDecl.all file.source ∧ decl.body = some body ∧
      statements ∈ body.sequences ∧
      view ∈ StatementView.ofSequence file.source.text (program.importsOf file.source) (statements.map (·.node)) ∧
      view.packageCall? "net/http" = some (call, "Get") ∧
      let text := file.source.text
      let here := Surroundings.ofDecl program file.package (program.importsOf file.source) decl
      ∃ statement ∈ statements, ∃ callee operand, view.node = statement.node ∧
        Selects text statement call "Get" callee operand ∧
        (program.importsOf file.source).pathFor? (operand.text text) = some "net/http" ∧
        (¬ operand.Sees (LocalName.Declares text (operand.text text)) → decl.receiverName ≠ some (operand.text text) →
          here.selector? text callee = some (program.imported "net/http" "Get")) ∧
        (operand.Sees (LocalName.Declares text (operand.text text)) →
          ∃ local_, LocalName.at? text (operand.text text) operand = some local_ ∧
            here.selector? text callee = some (here.methodOf (local_.typeRef? text) "Get") ∧
            ∀ package, here.selector? text callee ≠ some (.resolved (.function package "Get"))) := by
  have parsed := soleProgram_isParsed plainRequest
  let file : ProgramFile := ⟨.load "main.go" plainRequest, 0⟩
  have listed : file ∈ (soleProgram plainRequest).files := List.mem_singleton.2 rfl
  have holds : (isMainFile plainRequest &&
      (FunctionDecl.all file.source).any fun decl => decl.body.any fun body => body.sequences.any fun statements =>
        (StatementView.ofSequence plainRequest ((soleProgram plainRequest).importsOf file.source)
          (statements.map (·.node))).any fun view =>
            (view.packageCall? "net/http").any fun found => found.2 == "Get") = true := by decide +kernel
  obtain ⟨loads, holds⟩ := Bool.and_eq_true_iff.1 holds
  have loaded := Loader.load_soleDisk loads
  obtain ⟨decl, declared, holds⟩ := List.any_eq_true.1 holds
  obtain ⟨body, found, holds⟩ := (Option.any_eq_true _ _).1 holds
  obtain ⟨statements, sequence, holds⟩ := List.any_eq_true.1 holds
  obtain ⟨view, shown, holds⟩ := List.any_eq_true.1 holds
  obtain ⟨⟨call, field⟩, recognised, holds⟩ := (Option.any_eq_true _ _).1 holds
  cases beq_iff_eq.1 holds
  exact ⟨_, file, decl, body, statements, view, call, loaded, parsed, listed, declared, found, sequence, shown, recognised,
    packageCall?_agrees parsed listed declared found sequence shown recognised⟩

/-- In `main`, a variable with a method has the name of a package. -/
def localClient : String :=
  "package main\n\nimport \"net/http\"\n\ntype client struct\x7b\x7d\n\nfunc (c client) Get(url string) \x7b\x7d\n\n" ++
    "var status = http.StatusOK\n\nfunc main() \x7b\n\thttp := client\x7b\x7d\n\thttp.Get(\"x\")\n\x7d\n"

/-- A call of a method of a local variable is taken for a call of the package with the name of the variable,
where the resolver finds the declaration and the method. -/
theorem localClient_isMistaken :
    ∃ program file decl body statements view call statement callee operand,
      Loader.load (soleDisk localClient) "/" {} = .ok program ∧ file ∈ program.files ∧
      decl ∈ FunctionDecl.all file.source ∧ decl.body = some body ∧ statements ∈ body.sequences ∧
      view ∈ StatementView.ofSequence file.source.text (program.importsOf file.source) (statements.map (·.node)) ∧
      view.packageCall? "net/http" = some (call, "Get") ∧ view.node = statement.node ∧
      Selects file.source.text statement call "Get" callee operand ∧
      operand.Sees (LocalName.Declares file.source.text (operand.text file.source.text)) ∧
      (LocalName.at? file.source.text (operand.text file.source.text) operand).isSome = true ∧
      (Surroundings.ofDecl program file.package (program.importsOf file.source) decl).selector? file.source.text callee =
        some (.resolved (.method 0 "client" "Get")) := by
  have parsed := soleProgram_isParsed localClient
  let file : ProgramFile := ⟨.load "main.go" localClient, 0⟩
  have listed : file ∈ (soleProgram localClient).files := List.mem_singleton.2 rfl
  have holds : (isMainFile localClient &&
      (FunctionDecl.all file.source).any fun decl => decl.body.any fun body => body.sequences.any fun statements =>
        (StatementView.ofSequence localClient ((soleProgram localClient).importsOf file.source)
          (statements.map (·.node))).any fun view =>
            ((view.packageCall? "net/http").any fun found => found.2 == "Get") && body.descendants.all fun callee =>
              callee.kind != .selectorExpression || (callee.child? .operand).all fun operand =>
                (LocalName.at? localClient (operand.text localClient) operand).isSome &&
                  (Surroundings.ofDecl (soleProgram localClient) 0 ((soleProgram localClient).importsOf file.source)
                    decl).selector? localClient callee == some (.resolved (.method 0 "client" "Get"))) = true := by
    decide +kernel
  obtain ⟨loads, holds⟩ := Bool.and_eq_true_iff.1 holds
  have loaded := Loader.load_soleDisk loads
  obtain ⟨decl, declared, holds⟩ := List.any_eq_true.1 holds
  obtain ⟨body, found, holds⟩ := (Option.any_eq_true _ _).1 holds
  obtain ⟨statements, sequence, holds⟩ := List.any_eq_true.1 holds
  obtain ⟨view, shown, holds⟩ := List.any_eq_true.1 holds
  rw [Bool.and_eq_true, List.all_eq_true] at holds
  obtain ⟨recognised, resolved⟩ := holds
  obtain ⟨⟨call, field⟩, recognised, same⟩ := (Option.any_eq_true _ _).1 recognised
  cases beq_iff_eq.1 same
  obtain ⟨⟨statement, member, shows⟩, source, _⟩ := StatementView.of_mem_ofSequence shown
  obtain ⟨callee, operand, selects, _⟩ := exists_selects shows recognised
  rw [source] at selects
  have below := (Setup.mem_sequences sequence member).1
  have known := resolved callee (Go.Place.mem_descendants.2 (below.trans selects.below))
  rw [selects.selector, selects.child] at known
  simp only [bne_self_eq_false, Bool.false_or, Option.all_some, Bool.and_eq_true, beq_iff_eq] at known
  have inside := ((FunctionDecl.below_body (parsed file listed) declared found).trans below).trans selects.below_operand
  have sees := ((parsed file listed).isSome_at? inside selects.word _).1 known.1
  exact ⟨_, file, decl, body, statements, view, call, statement, callee, operand, loaded, listed, declared, found, sequence,
    shown, recognised, shows, selects, sees, known.1, known.2⟩

end TraceWeave
