import TraceWeave.Config.Basic
import TraceWeave.Proofs.Go.Literals
import TraceWeave.Proofs.NewCode
import TraceWeave.Proofs.Positions

/-!
Names of a configuration in new code. What a configuration may call the application, the agent and the handle is
looser than what the code that they are written into can say: a literal has no form for all characters, and a name
that is spelled like a word need not be one, nor the name of a variable.
-/
namespace TraceWeave

open Go (IsWord IsPhrase Symbol)
open Go.Lexeme (Scans)

namespace Configuration

/-- What a configuration without a problem is. -/
structure Accepted (configuration : Configuration) : Prop where
  agent : Text.isIdentifier configuration.settings.agent = true
  handle : Text.isIdentifier configuration.settings.handle = true
  differ : configuration.settings.agent ≠ configuration.settings.handle
  patchName : Text.isAllBlank configuration.patchName = false
  appName : ∀ name ∈ configuration.settings.appName, isPlainName name = true

variable {configuration : Configuration} {name : String}

theorem problem?_eq_none : configuration.problem? = none ↔ Accepted configuration := by
  constructor
  · intro none
    unfold problem? at none
    dsimp only at none
    split at none
    · cases none
    rename_i agent
    split at none
    · cases none
    rename_i handle
    split at none
    · cases none
    rename_i differ
    split at none
    · cases none
    rename_i patchName
    split at none
    · cases none
    rename_i plain
    refine ⟨by simpa using agent, by simpa using handle, differ, by simpa using patchName, fun name named => ?_⟩
    rw [Option.mem_def.1 named] at plain
    simpa using plain
  · rintro ⟨agent, handle, differ, patchName, plain⟩
    have named : (configuration.settings.appName.any fun name => !isPlainName name) = false := by
      rw [Option.any_eq_false]
      exact fun name listed => by simp [plain name listed]
    simp [problem?, agent, handle, differ, patchName, named]

end Configuration

/-! The application. -/

/-- The first line that makes the agent has the name of the application as a literal. -/
theorem agentLines_named {settings : Settings} {name : String} (named : settings.appName = some name) (imports : Imports)
    (failure : String) : ∃ before more,
      agentLines settings imports failure = (before ++ ".ConfigAppName(" ++ Text.quote name ++ "))") :: more := by
  refine ⟨settings.agent ++ ", " ++ failure ++ " := " ++ Setup.agentPackage imports ++ ".NewApplication(" ++
    Setup.agentPackage imports ++ ".ConfigFromEnvironment()" ++ ", " ++ Setup.agentPackage imports,
    (agentLines settings imports failure).tail, ?_⟩
  simp only [agentLines, named, String.append_assoc, List.tail_cons]
  rfl

/-- The agent is made at the start of one body, or not at all. -/
theorem bootstrapEdits_eq {settings : Settings} {imports : Imports} {source : Source} {edits : List Edit}
    (made : bootstrapEdits settings imports source = .ok edits) :
    edits = [] ∨ ∃ body failure, edits = [Edit.addAtStart source.text body (agentLines settings imports failure)] := by
  unfold bootstrapEdits at made
  split at made
  · exact .inl (Except.ok.inj made).symm
  split at made
  · exact .inl (Except.ok.inj made).symm
  split at made
  · split at made
    · cases made
    · exact .inr ⟨_, _, (Except.ok.inj made).symm⟩
  · exact .inl (Except.ok.inj made).symm

namespace Configuration

variable {configuration : Configuration} {name : String}

/-- A configuration with nothing but a name for the application. -/
def ofAppName (name : String) : Configuration := { settings := { appName := some name } }

end Configuration

/-! Variables. -/

namespace Text

/-- Whether every range of an ordered table lies in one of another ordered table. -/
def rangesWithin (ranges : List (Nat × Nat)) : List (Nat × Nat) → Bool
  | [] => ranges.isEmpty
  | whole :: wholes =>
      rangesWithin (ranges.dropWhile fun range => decide (whole.1 ≤ range.1) && decide (range.2 ≤ whole.2)) wholes

theorem inRanges_of_within {ranges wholes : List (Nat × Nat)} {c : Char} (within : rangesWithin ranges wholes = true)
    (inside : inRanges ranges c = true) : inRanges wholes c = true := by
  induction wholes generalizing ranges with
  | nil =>
      rw [List.isEmpty_iff.1 within] at inside
      cases inside
  | cons whole wholes ih =>
      rw [inRanges, List.any_cons, Bool.or_eq_true]
      have parts := List.takeWhile_append_dropWhile (p := fun range : Nat × Nat =>
        decide (whole.1 ≤ range.1) && decide (range.2 ≤ whole.2)) (l := ranges)
      rw [← parts, inRanges, List.any_append, Bool.or_eq_true] at inside
      refine inside.imp (fun early => ?_) (ih within)
      obtain ⟨range, listed, holds⟩ := List.any_eq_true.1 early
      have fits := List.mem_takeWhile_imp listed
      simp only [Bool.and_eq_true, decide_eq_true_eq] at fits holds ⊢
      omega

/-- What can begin a word can go on with one. -/
theorem continuesWord_of_startsWord {c : Char} (starts : startsWord c = true) : continuesWord c = true := by
  have within : rangesWithin wordStartRanges wordPartRanges = true := by decide +kernel
  simp only [startsWord, continuesWord, Char.isAlphanum, Bool.or_eq_true, Bool.and_eq_true] at starts ⊢
  rcases starts with (underscore | letter) | ⟨beyond, inside⟩
  · exact .inl (.inl underscore)
  · exact .inl (.inr (.inl letter))
  · exact .inr ⟨beyond, inRanges_of_within within inside⟩

/-- Letters and digits of ASCII are the same in names and in words. -/
theorem startsWord_of_ascii {c : Char} (begins : (c == '_' || isLetter c) = true)
    (beyond : 128 ≤ c.toNat → startsWord c = true) : startsWord c = true := by
  by_cases large : 128 ≤ c.toNat
  · exact beyond large
  · simpa [startsWord, isLetter, large] using begins

theorem continuesWord_of_ascii {c : Char} (belongs : (c == '_' || isLetter c || isNumeral c) = true)
    (beyond : 128 ≤ c.toNat → continuesWord c = true) : continuesWord c = true := by
  by_cases large : 128 ≤ c.toNat
  · exact beyond large
  · simpa [continuesWord, isLetter, isNumeral, large, Char.isAlphanum, or_assoc] using belongs

end Text

namespace Go

/-- Words with a meaning in the grammar of Go. -/
def keywords : List String :=
  ["break", "case", "chan", "const", "continue", "default", "defer", "else", "fallthrough", "for", "func", "go", "goto",
    "if", "import", "interface", "map", "package", "range", "return", "select", "struct", "switch", "type", "var"]

/-- What cannot name a variable, or names something else everywhere. -/
def reservedNames : List String := keywords ++ ["_", "nil", "true", "false", "iota"]

/-- A text that is read as one word, which can be the name of a variable. -/
structure IsVariable (name : String) : Prop where
  reads : Symbol.all name.toList = [⟨.word, name⟩, ⟨.eof, ""⟩]
  free : name ∉ reservedNames

variable {name : String}

theorem IsWord.reads (word : IsWord name) : Symbol.all name.toList = [⟨.word, name⟩, ⟨.eof, ""⟩] := by
  have ends : ∀ c ∈ ([] : List Char).head?, Text.continuesWord c = false := by simp
  have whole := (word.scans ends).symbols_eq
  rw [List.append_nil] at whole
  rw [whole, Symbol.all, Token.listFrom]
  rfl

theorem length_le_of_scans {cs rest : List Char} {symbols : List Symbol} (scans : Scans cs symbols rest) :
    ∀ symbol ∈ symbols, symbol.text.toList.length ≤ cs.length := by
  induction scans with
  | nil => exact fun _ listed => absurd listed List.not_mem_nil
  | space _ _ ih => exact fun symbol listed => Nat.le_succ_of_le (ih symbol listed)
  | @lexeme c cs _ _ _ more _ _ fits _ ih =>
      refine List.forall_mem_cons.2 ⟨?_, fun symbol listed => Nat.le_succ_of_le ?_⟩
      · simp [List.length_take]
      · exact (ih symbol listed).trans (List.drop_sublist more cs).length_le

theorem isWord_of_reads (reads : Symbol.all name.toList = [⟨.word, name⟩, ⟨.eof, ""⟩]) : IsWord name := by
  obtain ⟨symbols, scans, whole⟩ := Lexeme.scans_all name.toList
  obtain rfl : symbols = [⟨.word, name⟩] := List.append_cancel_right (whole.symm.trans reads)
  generalize chars : name.toList = cs at scans
  cases scans with
  | space _ later =>
      have short := length_le_of_scans later _ List.mem_cons_self
      rw [chars, List.length_cons] at short
      omega
  | @lexeme c cs _ _ _ more _ found fits _ =>
      have starts := Lexeme.startsWord_of_after (congrArg Prod.fst found)
      have whole : cs.take more = cs := by
        rw [String.toList_ofList] at chars
        exact (List.cons.inj chars).2
      rw [List.append_nil, Lexeme.after, if_pos starts] at found
      have continues : cs.takeWhile Text.continuesWord = cs := by
        refine (List.takeWhile_prefix _).eq_of_length_le ?_
        have size := congrArg List.length whole
        rw [List.length_take, ← (Prod.mk.inj found).2] at size
        omega
      refine ⟨?_, ?_, ?_⟩
      · rw [Ne, ← String.toList_eq_nil_iff, chars]
        exact List.cons_ne_nil _ _
      · rw [chars]
        rintro _ ⟨⟩
        exact starts
      · rw [chars]
        exact List.forall_mem_cons.2 ⟨Text.continuesWord_of_startsWord starts, List.takeWhile_eq_self_iff.1 continues⟩

theorem IsVariable.isWord (is : IsVariable name) : IsWord name := isWord_of_reads is.reads

/-- A name that is accepted is a variable unless Go keeps it for something else, or it has characters beyond ASCII
that do not belong to words. -/
theorem isVariable_iff (identifier : Text.isIdentifier name = true) :
    IsVariable name ↔ name ∉ reservedNames ∧ (∀ c ∈ name.toList.head?, 128 ≤ c.toNat → Text.startsWord c = true) ∧
      ∀ c ∈ name.toList, 128 ≤ c.toNat → Text.continuesWord c = true := by
  unfold Text.isIdentifier at identifier
  split at identifier
  · cases identifier
  rename_i c rest chars
  rw [Bool.and_eq_true, List.all_eq_true] at identifier
  obtain ⟨first, later⟩ := identifier
  constructor
  · rintro ⟨reads, free⟩
    obtain ⟨_, starts, continues⟩ := isWord_of_reads reads
    exact ⟨free, fun c listed _ => starts c listed, fun c listed _ => continues c listed⟩
  · rintro ⟨free, starts, continues⟩
    refine ⟨IsWord.reads ⟨?_, ?_, ?_⟩, free⟩
    · rintro rfl
      cases chars
    · rw [chars] at starts ⊢
      rintro _ ⟨⟩
      exact Text.startsWord_of_ascii first (starts c rfl)
    · rw [chars] at continues ⊢
      obtain ⟨here, behind⟩ := List.forall_mem_cons.1 continues
      refine List.forall_mem_cons.2 ⟨Text.continuesWord_of_ascii (by simp [first]) here, fun d listed => ?_⟩
      exact Text.continuesWord_of_ascii (later d listed) (behind d listed)

/-- Names of ASCII characters that are accepted and free are variables. -/
theorem IsVariable.of_ascii (identifier : Text.isIdentifier name = true) (ascii : name.toList.all (·.toNat < 128) = true)
    (free : name ∉ reservedNames) : IsVariable name := by
  have small {c : Char} (listed : c ∈ name.toList) : ¬ 128 ≤ c.toNat := by
    have holds := of_decide_eq_true (List.all_eq_true.1 ascii c listed)
    omega
  refine (isVariable_iff identifier).2 ⟨free, fun c first large => ?_, fun c listed large => absurd large (small listed)⟩
  exact absurd large (small (List.mem_of_mem_head? first))

/-! Code with a name in it. -/

/-- A word is read as such before everything that does not go on with it. -/
theorem IsWord.all_append (word : IsWord name) {rest : List Char} (ends : ∀ c ∈ rest.head?, Text.continuesWord c = false) :
    Symbol.all (name.toList ++ rest) = ⟨.word, name⟩ :: Symbol.all rest :=
  (word.scans ends).symbols_eq

theorem all_space {c : Char} (space : Lexeme.isSpace c = true) (rest : List Char) :
    Symbol.all (c :: rest) = Symbol.all rest :=
  (Scans.space space (.nil rest)).symbols_eq

/-- A phrase is read as such before white space, commas and brackets. -/
theorem IsPhrase.all_append {text : String} (phrase : IsPhrase text) {rest : List Char} (stopped : Lexeme.Stopped rest) :
    Symbol.all (text.toList ++ rest) = Symbol.ofText text ++ Symbol.all rest :=
  (phrase.scans stopped).symbols_eq

/-- A declared word, and what it is declared as. -/
theorem IsWord.all_declaration (word : IsWord name) (value : String) :
    Symbol.all (name ++ " := " ++ value).toList = ⟨.word, name⟩ :: ⟨.mark, ":="⟩ :: Symbol.all value.toList := by
  have phrase : IsPhrase ":=" := ⟨by decide +kernel, by decide +kernel⟩
  have mark : Symbol.ofText ":=" = [⟨.mark, ":="⟩] := by decide +kernel
  have parts : (name ++ " := " ++ value).toList = name.toList ++ ' ' :: (":=".toList ++ ' ' :: value.toList) := by simp
  rw [parts, word.all_append (by rintro _ ⟨⟩; decide +kernel), all_space (by decide),
    phrase.all_append (Lexeme.stopped_cons.2 (by decide)), all_space (by decide), mark]
  rfl

end Go

/-- How the texts are read that the names of the agent and the handle are written into: the parameter, the arguments,
the lines that make a handle, and the first and last line that make the agent. -/
structure Settings.AreRead (settings : Settings) : Prop where
  parameter : ∀ (setup : Setup) (imports : Imports), setup.settings = settings → IsWord (Setup.agentPackage imports) →
    Listing.IsParameter (setup.handleParameter imports) ⟨.word, settings.handle⟩
      [⟨.mark, "*"⟩, ⟨.word, Setup.agentPackage imports⟩, ⟨.mark, "."⟩, ⟨.word, "Transaction"⟩]
  arguments : Listing.IsItem settings.handle ∧ Listing.IsItem (settings.handle ++ ".NewGoroutine()")
  transaction : ∀ imports, (Code.transaction.render settings imports).map (Symbol.all ·.toList) =
    [⟨.word, settings.handle⟩ :: ⟨.mark, ":="⟩ :: ⟨.word, settings.agent⟩ :: Symbol.all ".StartTransaction(\"main\")".toList,
      ⟨.word, "defer"⟩ :: ⟨.word, settings.handle⟩ :: Symbol.all ".End()".toList]
  request : ∀ imports request, ((Code.fromRequest request).render settings imports).map (Symbol.all ·.toList) =
    [⟨.word, settings.handle⟩ :: ⟨.mark, ":="⟩ ::
      Symbol.all (Setup.agentPackage imports ++ ".FromContext(" ++ request ++ ".Context())").toList]
  agent : ∀ imports failure, ∃ value between time, (agentLines settings imports failure).map (Symbol.all ·.toList) =
    (⟨.word, settings.agent⟩ :: ⟨.mark, ","⟩ :: Symbol.all (failure ++ " := " ++ value).toList) :: between ++
      [⟨.word, "defer"⟩ :: ⟨.word, settings.agent⟩ :: Symbol.all (".Shutdown(5 * " ++ time ++ ".Second)").toList]

theorem Go.IsWord.all_defer {name : String} (word : IsWord name) {rest : String} (ends : rest.toList.head? = some '.') :
    Symbol.all ("defer " ++ name ++ rest).toList = ⟨.word, "defer"⟩ :: ⟨.word, name⟩ :: Symbol.all rest.toList := by
  have defer : IsWord "defer" := Go.isWord_of_all (by decide) (by decide +kernel) (by decide +kernel)
  have parts : ("defer " ++ name ++ rest).toList = "defer".toList ++ ' ' :: (name.toList ++ rest.toList) := by simp
  rw [parts, defer.all_append (by rintro _ ⟨⟩; decide +kernel), Go.all_space (by decide), word.all_append]
  rw [ends]
  rintro _ ⟨⟩
  decide +kernel

/-- A word with a comma behind it. -/
theorem Go.IsWord.all_pair {name : String} (word : IsWord name) (rest : String) :
    Symbol.all (name ++ ", " ++ rest).toList = ⟨.word, name⟩ :: ⟨.mark, ","⟩ :: Symbol.all rest.toList := by
  have found : Go.Lexeme.after ',' (' ' :: rest.toList) = (.mark, 0) := Go.Lexeme.after_listMark (by decide) _
  have comma : Scans [','] [⟨.mark, ","⟩] (' ' :: rest.toList) := .lexeme (by decide) found (Nat.zero_le _) (.nil _)
  have parts : (name ++ ", " ++ rest).toList = name.toList ++ ([','] ++ ' ' :: rest.toList) := by simp
  rw [parts, word.all_append (by rintro _ ⟨⟩; decide +kernel), comma.symbols_eq, Go.all_space (by decide)]
  rfl

/-- The first and the last line that make the agent. -/
theorem agentLines_ends (settings : Settings) (imports : Imports) (failure : String) : ∃ value between time,
    agentLines settings imports failure = (settings.agent ++ ", " ++ (failure ++ " := " ++ value)) :: between ++
      ["defer " ++ settings.agent ++ (".Shutdown(5 * " ++ time ++ ".Second)")] := by
  unfold agentLines
  simp only [String.append_assoc]
  exact ⟨_, [_, _, _], _, rfl⟩

theorem Settings.areRead {settings : Settings} (agent : IsWord settings.agent) (handle : IsWord settings.handle) :
    settings.AreRead where
  parameter := by
    rintro setup imports rfl package
    exact setup.isParameter_handleParameter handle imports package
  arguments := by
    let setup : Setup := ⟨[], settings, ⟨[], []⟩⟩
    obtain ⟨own, another, _⟩ := setup.isItem_arguments handle
    exact ⟨own, another⟩
  transaction := by
    intro imports
    have made : Code.transaction.render settings imports =
        [settings.handle ++ " := " ++ (settings.agent ++ ".StartTransaction(\"main\")"),
          "defer " ++ settings.handle ++ ".End()"] := by
      simp [Code.render, Code.lines, Piece.line, Piece.render, String.append_assoc]
    rw [made, List.map_cons, List.map_cons, handle.all_declaration, handle.all_defer (by decide), String.toList_append,
      agent.all_append (by rintro _ ⟨⟩; decide +kernel)]
    rfl
  request := by
    intro imports request
    have made : (Code.fromRequest request).render settings imports =
        [settings.handle ++ " := " ++ (Setup.agentPackage imports ++ ".FromContext(" ++ request ++ ".Context())")] := by
      simp [Code.render, Code.lines, Piece.line, Piece.render, Setup.agentPackage, String.append_assoc]
    rw [made, List.map_singleton, handle.all_declaration]
  agent := by
    intro imports failure
    obtain ⟨value, between, time, lines⟩ := agentLines_ends settings imports failure
    refine ⟨value, between.map (Symbol.all ·.toList), time, ?_⟩
    rw [lines, List.map_append, List.map_cons, List.map_singleton, agent.all_pair, agent.all_defer]
    simp

namespace Configuration

variable {configuration : Configuration}

/-- A configuration with nothing but a name for the handle. -/
def ofHandle (handle : String) : Configuration := { settings := { handle := handle } }

theorem problem?_ofHandle (spelled : Text.isIdentifier name = true) (other : "NewRelicAgent" ≠ name) :
    (ofHandle name).problem? = none := by
  refine problem?_eq_none.2 ⟨?_, spelled, other, ?_, fun _ listed => by cases listed⟩
  · change Text.isIdentifier "NewRelicAgent" = true
    decide +kernel
  · change Text.isAllBlank "new-relic-instrumentation.diff" = false
    decide +kernel

end Configuration

end TraceWeave
