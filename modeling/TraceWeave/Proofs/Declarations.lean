import TraceWeave.Proofs.Go.LayoutFiles
import TraceWeave.Proofs.Listing
import TraceWeave.Proofs.Variants

/-!
Declarations read from their list. The entries of a parameter list are joined to declarations, where names wait for the
type that ends their group; if all of them have names, the runs between the commas say the same as the declarations.
-/
namespace TraceWeave

open Go (Node Token Symbol)
open Go.Node (Covers outline)
open Go.Grammar (Parameter groupParameters parameterDeclaration typeOnly)
open Listing (declared? isVariadic)

/-! Groups of parameters. -/

namespace ParameterGroup

/-- The parameters of a group as they are read from a text. -/
def symbols (group : ParameterGroup) : List (Symbol × List Symbol) :=
  group.names.map fun name =>
    (⟨.word, name⟩, if group.variadic then ⟨.mark, "..."⟩ :: Symbol.ofText group.type else Symbol.ofText group.type)

variable {source : String} {groups : List ParameterGroup}

theorem length_symbols {group : ParameterGroup} (named : group.names ≠ []) : group.symbols.length = group.arity := by
  have some_ := List.length_pos_iff.2 named
  rw [symbols, List.length_map, arity]
  omega

theorem length_flatMap_symbols (named : ∀ group ∈ groups, group.names ≠ []) :
    (groups.flatMap symbols).length = total arity groups := by
  induction groups with
  | nil => rfl
  | cons group groups ih =>
      obtain ⟨here, later⟩ := List.forall_mem_cons.1 named
      rw [List.flatMap_cons, List.length_append, length_symbols here, total_cons, ih later]

/-! Declarations that stand alike. -/

/-- The parameters of a declaration of which only the outline is known. -/
def ofOutline (source : String) (outline : Node.Outline) : ParameterGroup :=
  { names := outline.names.map fun span => Text.slice source span.1 span.2
    type := (outline.type.map fun span => Text.slice source span.1 span.2).getD ""
    variadic := outline.kind == .variadicParameterDeclaration }

theorem ofDeclaration_eq (declaration : Node) : ofDeclaration source declaration = ofOutline source (outline declaration) := by
  simp only [ofDeclaration, ofOutline, outline, List.map_map, Option.map_map]
  rfl

theorem declarations_eq {list : Node} {nodes : List Node} (same : list.parts.map outline = nodes.map outline)
    (kinds : ∀ node ∈ nodes, node.kind.isParameter = true) : declarations list = list.parts := by
  refine List.filter_eq_self.2 fun part member => ?_
  obtain ⟨node, listed, alike⟩ := List.mem_map.1 (same ▸ List.mem_map_of_mem member : outline part ∈ nodes.map outline)
  have kind : node.kind = part.kind := congrArg Node.Outline.kind alike
  exact kind ▸ kinds node listed

theorem map_ofDeclaration {nodes nodes' : List Node} (same : nodes.map outline = nodes'.map outline) :
    nodes.map (ofDeclaration source) = nodes'.map (ofDeclaration source) := by
  have factor : ofDeclaration source = ofOutline source ∘ outline := funext ofDeclaration_eq
  rw [factor, ← List.map_map, same, List.map_map]

/-! Declarations of entries. -/

/-- The declaration of a parameter that takes any number of arguments. -/
def variadicDeclaration (start : Nat) (name : Option Token) (type : Node) : Node :=
  .build .variadicParameterDeclaration start type.stop
    (name.toList.map (fun name => (name.leaf .identifier).withRole .name) ++ [type.withRole .type])

theorem groupParameters_variadic (names : List Token) (start : Nat) (name : Option Token) (type : Node)
    (later : List Parameter) : groupParameters names (.variadic start name type :: later) =
      names.map typeOnly ++ variadicDeclaration start name type :: groupParameters [] later := rfl

theorem children_parameterDeclaration (names : List Token) (type : Node) :
    (parameterDeclaration names type).children =
      names.map (fun name => (name.leaf .identifier).withRole .name) ++ [type.withRole .type] := by
  cases names <;> rfl

theorem stop_parameterDeclaration (names : List Token) (type : Node) :
    (parameterDeclaration names type).stop = type.stop := by
  cases names with
  | nil => rfl
  | cons name names => simp [parameterDeclaration, Node.spanning, Node.withRole]

/-- The parameters of a declaration with some names before its type. -/
theorem ofDeclaration_of_children {declaration type : Node} {names : List Token}
    (children : declaration.children =
      names.map (fun name => (name.leaf .identifier).withRole .name) ++ [type.withRole .type]) :
    ofDeclaration source declaration =
      ⟨names.map fun name => Text.slice source name.start name.stop, type.text source,
        declaration.kind == .variadicParameterDeclaration⟩ := by
  have first : declaration.childrenAs .name = names.map fun name => (name.leaf .identifier).withRole .name := by
    rw [Node.childrenAs, children, List.filter_append, List.filter_eq_self.2]
    · exact List.append_nil _
    · simp [Node.withRole]
  have last : declaration.child? .type = some (type.withRole .type) := by
    rw [Node.child?, children, List.find?_append, List.find?_eq_none.2]
    · rfl
    · simp [Node.withRole]
  rw [ofDeclaration, first, last, List.map_map]
  rfl

theorem ofDeclaration_parameterDeclaration (names : List Token) (type : Node) :
    ofDeclaration source (parameterDeclaration names type) =
      ⟨names.map fun name => Text.slice source name.start name.stop, type.text source, false⟩ :=
  ofDeclaration_of_children (children_parameterDeclaration names type)

theorem ofDeclaration_variadicDeclaration (start : Nat) (name : Option Token) (type : Node) :
    ofDeclaration source (variadicDeclaration start name type) =
      ⟨name.toList.map fun name => Text.slice source name.start name.stop, type.text source, true⟩ :=
  ofDeclaration_of_children rfl

theorem isParameter_groupParameters (names : List Token) (entries : List Parameter) :
    ∀ node ∈ groupParameters names entries, node.kind.isParameter = true := by
  have types : ∀ names : List Token, ∀ node ∈ names.map typeOnly, node.kind.isParameter = true := by
    intro names node member
    obtain ⟨name, _, rfl⟩ := List.mem_map.1 member
    rfl
  induction entries generalizing names with
  | nil => exact types names
  | cons entry entries ih =>
      cases entry with
      | bare name => exact ih _
      | typed name type => exact List.forall_mem_cons.2 ⟨rfl, ih []⟩
      | unnamed type => exact List.forall_mem_append.2 ⟨types names, List.forall_mem_cons.2 ⟨rfl, ih []⟩⟩
      | variadic start name type => exact List.forall_mem_append.2 ⟨types names, List.forall_mem_cons.2 ⟨rfl, ih []⟩⟩

/-- Entries leave names for those behind them. -/
theorem exists_groupParameters (names : List Token) (entries : List Parameter) :
    ∃ found pending, ∀ later, groupParameters names (entries ++ later) = found ++ groupParameters pending later := by
  induction entries generalizing names with
  | nil => exact ⟨[], names, fun _ => rfl⟩
  | cons entry entries ih =>
      cases entry with
      | bare name => exact ih (names ++ [name])
      | typed name type =>
          obtain ⟨found, pending, split⟩ := ih []
          refine ⟨parameterDeclaration (names ++ [name]) type :: found, pending, fun later => ?_⟩
          rw [List.cons_append, groupParameters, split, List.cons_append]
      | unnamed type =>
          obtain ⟨found, pending, split⟩ := ih []
          refine ⟨names.map typeOnly ++ parameterDeclaration [] type :: found, pending, fun later => ?_⟩
          rw [List.cons_append, groupParameters, split, List.append_assoc, List.cons_append]
      | variadic start name type =>
          obtain ⟨found, pending, split⟩ := ih []
          refine ⟨names.map typeOnly ++ variadicDeclaration start name type :: found, pending, fun later => ?_⟩
          rw [List.cons_append, groupParameters_variadic, split, List.append_assoc, List.cons_append]

/-- A declaration with a name for each of its parameters. -/
def IsNamed (source : String) (declaration : Node) : Prop := (ofDeclaration source declaration).names ≠ []

theorem not_isNamed (type : Node) : ¬ IsNamed source (parameterDeclaration [] type) := by
  rw [IsNamed, ofDeclaration_parameterDeclaration]
  exact not_not_intro rfl

theorem not_isNamed_variadic (start : Nat) (type : Node) : ¬ IsNamed source (variadicDeclaration start none type) := by
  rw [IsNamed, ofDeclaration_variadicDeclaration]
  exact not_not_intro rfl

/-- Names that no type follows are types themselves. -/
theorem eq_nil_of_named {pending : List Token} (named : ∀ node ∈ pending.map typeOnly, IsNamed source node) :
    pending = [] := by
  cases pending with
  | nil => rfl
  | cons name pending => exact absurd (named _ List.mem_cons_self) (not_isNamed _)

/-- The last entry of a list ends its last declaration, and begins it if it is variadic. -/
theorem exists_last {pending run : List Token} {entry : Parameter} (spells : Node.SpellsEntry run entry)
    (named : ∀ node ∈ groupParameters pending [entry], IsNamed source node) :
    ∃ last, groupParameters pending [entry] = [last] ∧
      (last.kind = .parameterDeclaration ∧ Token.stopOf? run = some last.stop ∨
        last.kind = .variadicParameterDeclaration ∧ pending = [] ∧ Token.startOf? run = some last.start) := by
  cases spells with
  | @bare name word =>
      have empty := eq_nil_of_named named
      exact absurd empty (by simp)
  | @typed name used type word covers fixed =>
      refine ⟨_, rfl, .inl ⟨by simp [parameterDeclaration, Node.spanning], ?_⟩⟩
      rw [stop_parameterDeclaration, Token.stopOf?_cons, covers.stops]
      rfl
  | @unnamed used type covers => exact absurd (named _ (List.mem_append_right _ List.mem_cons_self)) (not_isNamed _)
  | @spread dots used type mark covers =>
      exact absurd (named _ (List.mem_append_right _ List.mem_cons_self)) (not_isNamed_variadic _ _)
  | @variadic name dots used type word mark covers =>
      obtain rfl := eq_nil_of_named (List.forall_mem_append.1 named).1
      exact ⟨_, rfl, .inr ⟨rfl, rfl, rfl⟩⟩

/-- A new parameter comes behind all that are declared, but before a variadic one. -/
theorem handleIndex_declarations {found : List Node} {last : Node} (named : ∀ node ∈ found ++ [last], IsNamed source node)
    (plain : ∀ node ∈ found, (node.kind == .variadicParameterDeclaration) = false) :
    handleIndex ((found ++ [last]).map (ofDeclaration source)) =
      (((if last.kind == .variadicParameterDeclaration then found else found ++ [last]).map
        (ofDeclaration source)).flatMap symbols).length := by
  have count : ∀ {nodes : List Node}, (∀ node ∈ nodes, IsNamed source node) →
      ((nodes.map (ofDeclaration source)).flatMap symbols).length = total arity (nodes.map (ofDeclaration source)) :=
    fun known => length_flatMap_symbols (List.forall_mem_map.2 known)
  have fixed : ∀ group ∈ found.map (ofDeclaration source), group.variadic = false := List.forall_mem_map.2 plain
  have index := handleIndex_append fixed (ofDeclaration source last)
  rw [List.map_append, List.map_singleton, index, ofDeclaration]
  cases variadic : last.kind == .variadicParameterDeclaration with
  | true =>
      rw [if_pos rfl, if_pos rfl, count (List.forall_mem_append.1 named).1]
      rfl
  | false =>
      rw [if_neg Bool.false_ne_true, if_neg Bool.false_ne_true, count named, List.map_append, total_append]
      rfl

end ParameterGroup

/-! Declarations read from their tokens. -/

namespace Listing

open Go.Token (symbol)
open ParameterGroup (ofDeclaration)

variable {source : String} {items items' : List (List Symbol)} {names : List Symbol} {found : List (Symbol × List Symbol)}

/-- Tokens of an entry, of which each name and type is read as its text is by itself. -/
structure Reads (source : String) (run : List Token) : Prop where
  name : ∀ token ∈ run, Text.slice source token.start token.stop = token.text
  type : ∀ used node, used <:+ run → Covers used node → Symbol.ofText (node.text source) = used.map symbol

/-- Items are read as the parameters of some groups. -/
structure Declares (pending : List Symbol) (items : List (List Symbol)) (groups : List ParameterGroup) : Prop where
  read : declared? pending items = some (groups.flatMap ParameterGroup.symbols)
  fixed : ∀ group ∈ groups, group.variadic = false → ∀ parameter ∈ group.symbols, isVariadic parameter = false

theorem declared?_append (names : List Symbol) (read : declared? names items = some found) (items' : List (List Symbol)) :
    declared? names (items ++ items') = (declared? [] items').map (found ++ ·) := by
  induction items generalizing names found with
  | nil =>
      cases names with
      | nil =>
          cases read
          simp
      | cons name names => cases read
  | cons item items ih =>
      cases item with
      | nil => cases read
      | cons name type =>
          rw [declared?] at read
          rw [List.cons_append, declared?]
          split at read
          · cases read
          · rename_i word
            rw [if_neg word]
            split at read
            · rename_i bare
              rw [if_pos bare]
              exact ih _ read
            · rename_i typed
              obtain ⟨rest, read', rfl⟩ := Option.map_eq_some_iff.1 read
              rw [if_neg typed, ih _ read', Option.map_map]
              exact congrArg (Option.map · _) (funext fun _ => (List.append_assoc _ _ _).symm)

/-- A type ends a group of names. -/
theorem Declares.group {pending : List Symbol} {name : Symbol} {type : List Symbol} {groups : List ParameterGroup}
    {group : ParameterGroup} (rest : Declares [] items groups) (word : name.kind = .word) (filled : type ≠ [])
    (same : group.symbols = (pending ++ [name]).map (·, type))
    (fixed : group.variadic = false → type.head? ≠ some ⟨.mark, "..."⟩) :
    Declares pending ((name :: type) :: items) (group :: groups) := by
  refine ⟨?_, List.forall_mem_cons.2 ⟨fun plain parameter member => ?_, rest.fixed⟩⟩
  · rw [declared?, if_neg (by simpa using word), if_neg (by simpa using filled), rest.read, Option.map_some,
      List.flatMap_cons, same]
  · obtain ⟨name, _, rfl⟩ := List.mem_map.1 (same ▸ member)
    exact beq_eq_false_iff_ne.2 (fixed plain)

/-- A name that is read as its own text. -/
def IsName (source : String) (name : Token) : Prop :=
  name.kind = .word ∧ Text.slice source name.start name.stop = name.text

/-- The parameters of a group whose names are read as they stand. -/
theorem symbols_of_names {names : List Token} (known : ∀ name ∈ names, IsName source name) (type : String)
    (variadic : Bool) :
    ParameterGroup.symbols ⟨names.map fun name => Text.slice source name.start name.stop, type, variadic⟩ =
      (names.map symbol).map (·, if variadic then ⟨.mark, "..."⟩ :: Symbol.ofText type else Symbol.ofText type) := by
  rw [ParameterGroup.symbols, List.map_map, List.map_map]
  refine List.map_congr_left fun name member => ?_
  obtain ⟨word, read⟩ := known name member
  rw [Function.comp, Function.comp, read, symbol, word]

/-- Declarations that all have names are read from the runs of their list. -/
theorem declares_groupParameters {pending : List Token} {runs : List (List Token)} {entries : List Parameter}
    (each : List.Forall₂ Node.SpellsEntry runs entries) (reads : ∀ run ∈ runs, Reads source run)
    (waiting : ∀ name ∈ pending, IsName source name)
    (named : ∀ node ∈ groupParameters pending entries, ParameterGroup.IsNamed source node) :
    Declares (pending.map symbol) (runs.map (List.map symbol))
      ((groupParameters pending entries).map (ofDeclaration source)) := by
  induction each generalizing pending with
  | nil =>
      rw [ParameterGroup.eq_nil_of_named named]
      exact ⟨rfl, by simp [groupParameters]⟩
  | @cons run entry runs entries spelled each ih =>
      obtain ⟨here, later⟩ := List.forall_mem_cons.1 reads
      cases spelled with
      | @bare name word =>
          have known := here.name name (List.mem_singleton_self _)
          have read := ih later (List.forall_mem_append.2 ⟨waiting, List.forall_mem_singleton.2 ⟨word, known⟩⟩) named
          rw [List.map_append] at read
          refine ⟨Eq.trans ?_ read.read, read.fixed⟩
          simp [declared?, symbol, word]
      | @typed name used type word covers fixed =>
          have known := here.name name List.mem_cons_self
          have names := List.forall_mem_append.2 ⟨waiting, List.forall_mem_singleton.2 ⟨word, known⟩⟩
          have read := here.type used type (List.suffix_cons _ _) covers
          have rest := ih later (by simp) (List.forall_mem_cons.1 named).2
          simp only [groupParameters, List.map_cons, ParameterGroup.ofDeclaration_parameterDeclaration]
          refine rest.group word (by simpa using covers.ne_nil) ?_ fun _ contrary => ?_
          · rw [symbols_of_names names, read, List.map_append]
            rfl
          · rw [List.head?_map, Option.map_eq_some_iff] at contrary
            obtain ⟨dots, head, same⟩ := contrary
            have plain := fixed dots head
            obtain ⟨kind, text⟩ := Symbol.mk.inj same
            simp [Token.isMark, kind, text] at plain
      | unnamed covers =>
          exact absurd (named _ (List.mem_append_right _ List.mem_cons_self)) (ParameterGroup.not_isNamed _)
      | spread mark covers =>
          exact absurd (named _ (List.mem_append_right _ List.mem_cons_self)) (ParameterGroup.not_isNamed_variadic _ _)
      | @variadic name dots used type word mark covers =>
          have known := here.name name List.mem_cons_self
          have read := here.type used type ((List.suffix_cons _ _).trans (List.suffix_cons _ _)) covers
          obtain ⟨types, others⟩ := List.forall_mem_append.1 named
          obtain rfl := ParameterGroup.eq_nil_of_named types
          have rest := ih later (by simp) (List.forall_mem_cons.1 others).2
          simp only [ParameterGroup.groupParameters_variadic, List.map_nil, List.nil_append, List.map_cons,
            ParameterGroup.ofDeclaration_variadicDeclaration]
          refine rest.group word (by simp) ?_ fun contrary => by cases contrary
          rw [Option.toList_some, symbols_of_names (List.forall_mem_singleton.2 ⟨word, known⟩), read, if_pos rfl,
            ← Token.symbol_of_isMark mark]
          rfl

/-- One more parameter between two parts of a list. -/
theorem declared?_insert {before after : List (Symbol × List Symbol)} {name : Symbol} {type : List Symbol}
    (read : declared? [] items = some before) (read' : declared? [] items' = some after) (word : name.kind = .word)
    (typed : type ≠ []) :
    declared? [] (items ++ items') = some (before ++ after) ∧
      declared? [] (items ++ (name :: type) :: items') = some (before ++ (name, type) :: after) := by
  rw [declared?_append [] read, declared?_append [] read, declared?, if_neg (by simpa using word),
    if_neg (by simpa using typed), read']
  exact ⟨rfl, rfl⟩

end Listing

end TraceWeave
