import TraceWeave.Proofs.Scopes
import TraceWeave.Proofs.SoleFile

/-!
Local names and functions of the package. An identifier in a body names a function of the package unless a
declaration that the resolver reads is in force there; then it names none, and nothing follows from a call
through it. Declarations that the resolver passes over make no difference.
-/
namespace TraceWeave

open Go (Kind Node Place)
open Go.Place (Below)

namespace Go.Place

theorem Below.child? {top place child : Place} (below : Below top place) {role : Role}
    (found : place.child? role = some child) (named : child.kind.isNamed = true) : Below top child := by
  obtain ⟨node, present, rfl⟩ := Option.map_eq_some_iff.1 found
  exact below.inside (List.mem_filter.2 ⟨List.mem_of_find?_eq_some present, named⟩)

/-- An expression is another one, parentheses aside. -/
inductive Wraps : Place → Place → Prop where
  | bare {place : Place} : Wraps place place
  | parens {outer place : Place} {inner : Node} (kind : outer.kind = .parenthesizedExpression)
      (first : outer.node.first? = some inner) (wraps : Wraps (outer.inside inner) place) : Wraps outer place

/-- A call calls what stands at a place. -/
structure CallsAt (call place : Place) : Prop where
  kind : call.kind = .callExpression
  callee : ∃ callee, call.child? .function = some callee ∧ callee.Wraps place

end Go.Place

/-- A call is tied to no function, of whichever graph and plan. -/
structure Untied (here : Surroundings) (text : String) (call : Place) : Prop where
  usages : ∀ functions caller, CallGraph.usageAt functions here text caller call = []
  callee : ∀ graph widened, widenedCallee? graph widened here text call = none
  argument : ∀ (site : HandleSite) state, site.source.text = text → site.callEdit here state call = state

namespace Surroundings

variable {here : Surroundings} {text : String} {outer place call : Place}

theorem target?_identifier (here : Surroundings) (text : String) (word : place.kind = .identifier) :
    here.target? text place =
      if (LocalName.at? text (place.text text) place).isSome then none else some (.function here.package (place.text text)) := by
  rw [target?]
  split <;> simp_all

/-- Parentheses make no difference to what an expression names. -/
theorem target?_wraps (wraps : outer.Wraps place) : here.target? text outer = here.target? text place := by
  induction wraps with
  | bare => rfl
  | @parens outer place inner kind first _ ih =>
      rw [← ih, target?]
      split
      · simp_all
      · simp_all
      · split
        · rename_i other found
          cases found.symm.trans first
          rfl
        · simp_all
      · simp_all

/-- A name is no selector, in parentheses or not. -/
theorem selector?_wraps (wraps : outer.Wraps place) (word : place.kind = .identifier) : here.selector? text outer = none := by
  have other : outer.kind ≠ .selectorExpression := by
    cases wraps with
    | bare => simp [word]
    | parens kind _ _ => simp [kind]
  rw [selector?, if_neg (by simpa using other)]

/-- A call through a name that names nothing is tied to nothing. -/
theorem untied_of_callsAt (calls : call.CallsAt place) (word : place.kind = .identifier)
    (lost : here.target? text place = none) : Untied here text call := by
  obtain ⟨kind, callee, found, wraps⟩ := calls
  have target : here.callTarget? text call = none := by
    rw [callTarget?, found, Option.bind_some, target?_wraps wraps, lost]
  have method : here.dynamicMethod? text call = none := by
    rw [dynamicMethod?, found, Option.bind_some, selector?_wraps wraps word, Option.bind_none]
  have nobody : ∀ graph widened, widenedCallee? graph widened here text call = none := fun graph widened => by
    rw [widenedCallee?, target]
    simp
  refine ⟨fun functions caller => ?_, nobody, ?_⟩
  · rw [CallGraph.usageAt, kind]
    dsimp only
    rw [CallGraph.callUsage, target, Option.bind_none]
    dsimp only
    rw [method]
    rfl
  · rintro site state rfl
    rw [HandleSite.callEdit, nobody]

/-- A name that names nothing is no use of a function. -/
theorem usageAt_identifier (word : place.kind = .identifier) (lost : here.target? text place = none)
    (functions : List GraphFunction) (caller : Option Nat) : CallGraph.usageAt functions here text caller place = [] := by
  rw [CallGraph.usageAt, word]
  dsimp only
  rw [CallGraph.valueUsage, lost]
  simp

end Surroundings

/-- What an identifier in a body names. A declaration that the resolver reads and that is in force makes it a
local name: it has no key, it is no use of a function, and a call through it makes no edge and gets no handle.
Otherwise it names the function of the package, whatever else declares it. -/
theorem identifier_resolves {program : Program} (parsed : program.IsParsed) {file : ProgramFile}
    (listed : file ∈ program.files) {decl : FunctionDecl} (declared : decl ∈ FunctionDecl.all file.source)
    {body place : Place} (found : decl.body = some body) (below : Below body place) (word : place.kind = .identifier) :
    let text := file.source.text
    let here := Surroundings.ofDecl program file.package (program.importsOf file.source) decl
    (place.Sees (LocalName.Declares text (place.text text)) → here.target? text place = none ∧
      (∀ functions caller, CallGraph.usageAt functions here text caller place = []) ∧
        ∀ call : Place, call.CallsAt place → Untied here text call) ∧
    (¬ place.Sees (LocalName.Declares text (place.text text)) →
      here.target? text place = some (.function file.package (place.text text))) := by
  intro text here
  have formed := parsed file listed
  have inside : Below file.source.rootPlace place := (FunctionDecl.below_body formed declared found).trans below
  have local_ := formed.isSome_at? inside word (place.text text)
  have target := here.target?_identifier text word
  constructor
  · intro sees
    have lost : here.target? text place = none := by rw [target, if_pos (local_.2 sees)]
    exact ⟨lost, Surroundings.usageAt_identifier word lost, fun call calls =>
      Surroundings.untied_of_callsAt calls word lost⟩
  · intro unseen
    rw [target, if_neg fun contrary => unseen (local_.1 contrary)]
    rfl

/-- `main` calls a variable that has the name of a function. -/
def localVariable : String :=
  "package main\n\nfunc main() \x7b\n\tfetch := func() \x7b\x7d\n\tfetch()\n\x7d\n\nfunc fetch() \x7b\n\x7d\n"

theorem identifier_resolves_localVariable :
    ∃ program file decl body place, Loader.load (soleDisk localVariable) "/" {} = .ok program ∧ program.IsParsed ∧
      file ∈ program.files ∧ decl ∈ FunctionDecl.all file.source ∧ decl.body = some body ∧ Below body place ∧
      place.kind = .identifier ∧
      let text := file.source.text
      let here := Surroundings.ofDecl program file.package (program.importsOf file.source) decl
      place.Sees (LocalName.Declares text (place.text text)) ∧ here.target? text place = none ∧
        ∃ call : Place, call.CallsAt place ∧ Untied here text call := by
  have parsed := soleProgram_isParsed localVariable
  let file : ProgramFile := ⟨.load "main.go" localVariable, 0⟩
  have listed : file ∈ (soleProgram localVariable).files := List.mem_singleton.2 rfl
  have holds : (isMainFile localVariable &&
      (FunctionDecl.all file.source).any fun decl => decl.body.any fun body => body.descendants.any fun call =>
        call.kind == .callExpression && (call.child? .function).any fun place => place.kind == .identifier &&
          (LocalName.at? file.source.text (place.text file.source.text) place).isSome) = true := by decide +kernel
  obtain ⟨loads, holds⟩ := Bool.and_eq_true_iff.1 holds
  have loaded := Loader.load_soleDisk loads
  obtain ⟨decl, declared, holds⟩ := List.any_eq_true.1 holds
  obtain ⟨body, found, holds⟩ := (Option.any_eq_true _ _).1 holds
  obtain ⟨call, met, holds⟩ := List.any_eq_true.1 holds
  rw [Bool.and_eq_true, beq_iff_eq] at holds
  obtain ⟨calls, holds⟩ := holds
  obtain ⟨place, callee, holds⟩ := (Option.any_eq_true _ _).1 holds
  rw [Bool.and_eq_true, beq_iff_eq] at holds
  obtain ⟨word, seen⟩ := holds
  have below : Below body place := (Go.Place.mem_descendants.1 met).child? callee (by rw [word]; rfl)
  have inside := (FunctionDecl.below_body (parsed file listed) declared found).trans below
  have sees := ((parsed file listed).isSome_at? inside word _).1 seen
  obtain ⟨lost, _, untied⟩ := (identifier_resolves parsed listed declared found below word).1 sees
  have through : call.CallsAt place := ⟨calls, place, callee, .bare⟩
  exact ⟨_, file, decl, body, place, loaded, parsed, listed, declared, found, below, word, sees, lost, call, through,
    untied call through⟩

/-- In `main`, a type has the name of a function that takes the handle. -/
def localType : String :=
  "package main\n\nimport \"net/http\"\n\nfunc main() \x7b\n\tfetch()\n\ttype fetch int\n\t_ = fetch(1)\n\x7d\n\n" ++
    "func fetch() \x7b\n\thttp.Get(\"x\")\n\x7d\n"

/-- Whether a child declares a type. -/
def declaresType (text name : String) (_scope child : Node) : Bool :=
  child.kind == .typeDeclaration && child.parts.any fun spec => (spec.child? .name).any (·.text text == name)

theorem overlooked_of_declaresType {text name : String} {scope child : Node}
    (declares : declaresType text name scope child = true) : LocalName.Overlooked text name scope child := by
  rw [declaresType, Bool.and_eq_true, beq_iff_eq, List.any_eq_true] at declares
  obtain ⟨kind, spec, listed, named⟩ := declares
  obtain ⟨label, labelled, named⟩ := (Option.any_eq_true _ _).1 named
  exact .type kind listed labelled (beq_iff_eq.1 named)

/-- A conversion to a local type is taken for a call of the function with its name: it makes an edge, and it
gets the handle. -/
theorem localType_resolves :
    ∃ program file decl body call place, Loader.load (soleDisk localType) "/" {} = .ok program ∧
      file ∈ program.files ∧ decl ∈ FunctionDecl.all file.source ∧ decl.body = some body ∧ Below body call ∧
      call.CallsAt place ∧ place.kind = .identifier ∧
      let text := file.source.text
      let here := Surroundings.ofDecl program file.package (program.importsOf file.source) decl
      let graph := CallGraph.build program "nrTxn"
      place.Sees (LocalName.Overlooked text (place.text text)) ∧ here.target? text place = some (.function 0 "fetch") ∧
        CallGraph.usageAt graph.functions here text (some 0) call = [.call 0 1] ∧
        (widenedCallee? graph (HandlePlan.compute graph [.function 0 "fetch"]).widens here text call).isSome = true := by
  have parsed := soleProgram_isParsed localType
  let file : ProgramFile := ⟨.load "main.go" localType, 0⟩
  have listed : file ∈ (soleProgram localType).files := List.mem_singleton.2 rfl
  let graph := CallGraph.build (soleProgram localType) "nrTxn"
  have holds : (isMainFile localType &&
      (FunctionDecl.all file.source).any fun decl => decl.body.any fun body => body.descendants.any fun call =>
        call.kind == .callExpression && (call.child? .function).any fun place => place.kind == .identifier &&
          LocalName.meets (declaresType file.source.text (place.text file.source.text)) place.start place.around &&
          let here := Surroundings.ofDecl (soleProgram localType) 0 ((soleProgram localType).importsOf file.source) decl
          here.target? file.source.text place == some (.function 0 "fetch") &&
            CallGraph.usageAt graph.functions here file.source.text (some 0) call == [.call 0 1] &&
              (widenedCallee? graph (HandlePlan.compute graph [.function 0 "fetch"]).widens here file.source.text
                call).isSome) = true := by
    decide +kernel
  obtain ⟨loads, holds⟩ := Bool.and_eq_true_iff.1 holds
  have loaded := Loader.load_soleDisk loads
  obtain ⟨decl, declared, holds⟩ := List.any_eq_true.1 holds
  obtain ⟨body, found, holds⟩ := (Option.any_eq_true _ _).1 holds
  obtain ⟨call, met, holds⟩ := List.any_eq_true.1 holds
  rw [Bool.and_eq_true, beq_iff_eq] at holds
  obtain ⟨calls, holds⟩ := holds
  obtain ⟨place, callee, holds⟩ := (Option.any_eq_true _ _).1 holds
  simp only [Bool.and_eq_true, beq_iff_eq] at holds
  obtain ⟨⟨word, seen⟩, ⟨target, usage⟩, widened⟩ := holds
  have below := Go.Place.mem_descendants.1 met
  have inside := (FunctionDecl.below_body (parsed file listed) declared found).trans (below.child? callee (by rw [word]; rfl))
  have sees := ((parsed file listed).meets_iff inside word _).1 seen
  exact ⟨_, file, decl, body, call, place, loaded, listed, declared, found, below, ⟨calls, place, callee, .bare⟩, word,
    sees.mono fun _ _ => overlooked_of_declaresType, target, usage, widened⟩

end TraceWeave
