import TraceWeave.Proofs.Go.Levels

/-!
Lists read from their texts alone. What stands between the parentheses is cut at its outer commas; in a list of
parameters that all have names, those before a type share it. A call hands each argument to the parameter at its
place, and to a variadic last parameter all that are left.
-/
namespace TraceWeave

open Go (Symbol Lined)

namespace Listing

/-- Runs of symbols between outer commas, where `run` is read so far. There are none if the brackets do not match. -/
def runs? (depth : Nat) (run : List Symbol) : List Symbol → Option (List (List Symbol))
  | [] => if depth = 0 then some [run] else none
  | symbol :: rest =>
      if depth = 0 ∧ symbol = ⟨.mark, ","⟩ then (runs? 0 [] rest).map (run :: ·)
      else (symbol.step depth).bind fun depth => runs? depth (run ++ [symbol]) rest

/-- Items from runs: none of them is empty, but a comma may stand behind the last. -/
def filled? : List (List Symbol) → Option (List (List Symbol))
  | [] | [[]] => some []
  | run :: runs => if run.isEmpty then none else (filled? runs).map (run :: ·)

/-- Items of what stands between parentheses, which may be a comma alone. -/
def inner? (symbols : List Symbol) : Option (List (List Symbol)) :=
  if symbols = [⟨.mark, ","⟩] then some [] else (runs? 0 [] symbols).bind filled?

/-- Items of a list in parentheses. -/
def items? (text : String) : Option (List (List Symbol)) :=
  match Symbol.ofText text with
  | opening :: rest =>
      if opening = ⟨.mark, "("⟩ ∧ rest.getLast? = some ⟨.mark, ")"⟩ then inner? rest.dropLast else none
  | [] => none

/-- Parameters that all have names, where those of `names` still wait for their type. -/
def declared? (names : List Symbol) : List (List Symbol) → Option (List (Symbol × List Symbol))
  | [] => if names.isEmpty then some [] else none
  | [] :: _ => none
  | (name :: type) :: items =>
      if name.kind ≠ .word then none
      else if type.isEmpty then declared? (names ++ [name]) items
      else (declared? [] items).map ((names ++ [name]).map (·, type) ++ ·)

/-- Parameters of a list in parentheses, each with its name and its type. -/
def parameters? (text : String) : Option (List (Symbol × List Symbol)) := (items? text).bind (declared? [])

/-- Whether a parameter takes any number of arguments: dots stand before its type. -/
def isVariadic (parameter : Symbol × List Symbol) : Bool := parameter.2.head? == some ⟨.mark, "..."⟩

/-- What parameters are bound to by a call. A variadic last parameter takes all arguments that are left. -/
def bind {α : Type} : List (Symbol × List Symbol) → List α → List ((Symbol × List Symbol) × α)
  | [], _ => []
  | parameter :: parameters, arguments =>
      if parameters.isEmpty && isVariadic parameter then arguments.map (parameter, ·)
      else
        match arguments with
        | argument :: arguments => (parameter, argument) :: bind parameters arguments
        | [] => []

/-- A text for one item of a list. -/
structure IsItem (text : String) : Prop extends Go.IsPhrase text where
  level : Symbol.walk 0 (Symbol.ofText text) = some 0
  filled : Symbol.ofText text ≠ []

/-- What the lexemes of an item say of it. -/
theorem isItem_of_scans {text : String} {symbols : List Symbol} (scans : Go.Lexeme.Scans text.toList symbols [])
    (level : Symbol.walk 0 symbols = some 0) (ends : ∀ symbol ∈ symbols.getLast?, symbol.text ≠ "/")
    (filled : symbols ≠ []) : IsItem text ∧ Symbol.ofText text = symbols := by
  have sound : ∀ symbol ∈ symbols, symbol.kind ≠ .comment ∧ symbol.kind ≠ .bad := by
    intro symbol member
    obtain ⟨program, bad⟩ := Symbol.isProgram_of_walk level symbol member
    rw [Symbol.isProgram, Bool.and_eq_true, bne_iff_ne] at program
    exact ⟨program.1, bad⟩
  obtain ⟨phrase, read⟩ := Go.isPhrase_of_scans scans sound ends
  exact ⟨⟨phrase, read.symm ▸ level, read.symm ▸ filled⟩, read⟩

theorem isItem_of_isWord {text : String} (word : Go.IsWord text) : IsItem text := by
  refine (isItem_of_scans (word.scans (by simp)) (by simp [Symbol.walk, Symbol.step]) ?_ (List.cons_ne_nil _ _)).1
  rintro _ ⟨⟩ (slash : text = "/")
  exact word.head_ne (c := '/') (by decide +kernel) [] (by rw [slash]; rfl)

/-- A text for one parameter that takes one argument. -/
structure IsParameter (text : String) (name : Symbol) (type : List Symbol) : Prop extends IsItem text where
  spelled : Symbol.ofText text = name :: type
  word : name.kind = .word
  typed : type ≠ []
  fixed : isVariadic (name, type) = false

variable {depth : Nat} {run symbols rest : List Symbol} {runs others : List (List Symbol)}

/-- A run of a list: its brackets match, and it has no outer comma. -/
def IsRun (run : List Symbol) : Prop := Symbol.walk 0 run = some 0 ∧ run ≠ []

theorem IsItem.isRun {text : String} (item : IsItem text) : IsRun (Symbol.ofText text) := ⟨item.level, item.filled⟩

/-! Reading lists. -/

theorem step_comma : (⟨.mark, ","⟩ : Symbol).step 0 = none := by decide

/-- What a walk passes is no outer comma. -/
theorem runs?_append (depth depth' : Nat) (walked : Symbol.walk depth run = some depth') (before rest : List Symbol) :
    runs? depth before (run ++ rest) = runs? depth' (before ++ run) rest := by
  induction run generalizing depth before with
  | nil =>
      cases walked
      rw [List.nil_append, List.append_nil]
  | cons symbol run ih =>
      rw [Symbol.walk_cons] at walked
      obtain ⟨middle, step, later⟩ := Option.bind_eq_some_iff.1 walked
      have inner : ¬ (depth = 0 ∧ symbol = ⟨.mark, ","⟩) := by
        rintro ⟨rfl, rfl⟩
        cases step_comma.symm.trans step
      rw [List.cons_append, runs?, if_neg inner, step, Option.bind_some, ih middle later, List.append_assoc]
      rfl

theorem runs?_last (is : IsRun run) : runs? 0 [] run = some [run] := by
  have read := runs?_append 0 0 is.1 [] []
  rwa [List.append_nil] at read

theorem runs?_more (is : IsRun run) (rest : List Symbol) :
    runs? 0 [] (run ++ ⟨.mark, ","⟩ :: rest) = (runs? 0 [] rest).map (run :: ·) := by
  rw [runs?_append 0 0 is.1, List.nil_append, runs?, if_pos ⟨rfl, rfl⟩]

theorem filled?_cons (is : IsRun run) (runs : List (List Symbol)) :
    filled? (run :: runs) = (filled? runs).map (run :: ·) := by
  obtain ⟨_, filled⟩ := is
  cases run with
  | nil => exact absurd rfl filled
  | cons symbol run =>
      cases runs with
      | nil => rfl
      | cons other runs => rfl

/-- The first symbol of a run is no comma. -/
theorem ne_comma_of_isRun (is : IsRun run) (rest : List Symbol) : run ++ rest ≠ [⟨.mark, ","⟩] := by
  obtain ⟨level, filled⟩ := is
  cases run with
  | nil => exact absurd rfl filled
  | cons symbol run =>
      intro contrary
      rw [List.cons_append] at contrary
      obtain rfl := (List.cons.inj contrary).1
      rw [Symbol.walk_cons, step_comma] at level
      cases level

/-- The items of a list are its runs. -/
theorem filled?_lined (lined : Lined (· = (⟨.mark, ","⟩ : Symbol)) runs symbols) (each : ∀ run ∈ runs, IsRun run)
    (some_ : runs ≠ []) : (runs? 0 [] symbols).bind filled? = some runs := by
  induction lined with
  | none => exact absurd rfl some_
  | comma mark => exact absurd rfl some_
  | last run =>
      have here := each run (by simp)
      rw [runs?_last here, Option.bind_some, filled?_cons here]
      rfl
  | trailing run mark =>
      subst mark
      have here := each run (by simp)
      rw [runs?_more here, runs?, if_pos rfl, Option.map_some, Option.bind_some, filled?_cons here]
      rfl
  | @more run comma runs used mark others lined ih =>
      subst mark
      obtain ⟨here, later⟩ := List.forall_mem_cons.1 each
      have read := ih later others
      obtain ⟨found, cut, kept⟩ := Option.bind_eq_some_iff.1 read
      rw [runs?_more here, cut, Option.map_some, Option.bind_some, filled?_cons here, kept]
      rfl

theorem inner?_lined (lined : Lined (· = (⟨.mark, ","⟩ : Symbol)) runs symbols) (each : ∀ run ∈ runs, IsRun run) :
    inner? symbols = some runs := by
  unfold inner?
  cases lined with
  | none => rfl
  | comma mark => rw [mark, if_pos rfl]
  | last =>
      have apart := ne_comma_of_isRun (each symbols (by simp)) []
      rw [List.append_nil] at apart
      rw [if_neg apart, filled?_lined (.last symbols) each (by simp)]
  | trailing run mark =>
      rw [if_neg (ne_comma_of_isRun (each run (by simp)) _), filled?_lined (.trailing run mark) each (by simp)]
  | more run mark others lined =>
      rw [if_neg (ne_comma_of_isRun (each run (by simp)) _), filled?_lined (.more run mark others lined) each (by simp)]

/-- The items of a text that is read as a list in parentheses. -/
theorem items?_eq {text : String} (read : Symbol.ofText text = ⟨.mark, "("⟩ :: (symbols ++ [⟨.mark, ")"⟩]))
    (lined : Lined (· = (⟨.mark, ","⟩ : Symbol)) runs symbols) (each : ∀ run ∈ runs, IsRun run) :
    items? text = some runs := by
  rw [items?, read]
  simp only [List.getLast?_concat, and_self, if_true, List.dropLast_concat]
  exact inner?_lined lined each

/-! Binding. -/

variable {α : Type}

theorem bind_cons {parameter : Symbol × List Symbol} (fixed : isVariadic parameter = false)
    (parameters : List (Symbol × List Symbol)) (argument : α) (arguments : List α) :
    bind (parameter :: parameters) (argument :: arguments) = (parameter, argument) :: bind parameters arguments := by
  rw [bind, fixed, Bool.and_false, if_neg Bool.false_ne_true]

/-- Fixed parameters are bound one by one. -/
theorem bind_append {before : List (Symbol × List Symbol)} (fixed : ∀ parameter ∈ before, isVariadic parameter = false)
    (after : List (Symbol × List Symbol)) {first : List α} (others : List α) (same : first.length = before.length) :
    bind (before ++ after) (first ++ others) = before.zip first ++ bind after others := by
  induction before generalizing first with
  | nil =>
      rw [List.length_nil, List.length_eq_zero_iff] at same
      subst same
      rfl
  | cons parameter before ih =>
      obtain ⟨here, later⟩ := List.forall_mem_cons.1 fixed
      cases first with
      | nil => cases same
      | cons argument first =>
          rw [List.cons_append, List.cons_append, bind_cons here, ih later (Nat.succ.inj same)]
          rfl

theorem insertIdx_append (before after : List α) (value : α) :
    (before ++ after).insertIdx before.length value = before ++ value :: after := by
  induction before with
  | nil => rfl
  | cons first before ih => exact congrArg (first :: ·) ih

/-- A parameter and an argument at one place are bound to each other, and all others as before. -/
theorem bind_insert {before after : List (Symbol × List Symbol)} {parameter : Symbol × List Symbol}
    (fixed : ∀ parameter ∈ before, isVariadic parameter = false) (fixed' : isVariadic parameter = false)
    {arguments : List α} (enough : before.length ≤ arguments.length) (argument : α) :
    (bind (before ++ parameter :: after) (arguments.insertIdx before.length argument))[before.length]? =
        some (parameter, argument) ∧
      (bind (before ++ parameter :: after) (arguments.insertIdx before.length argument)).eraseIdx before.length =
        bind (before ++ after) arguments := by
  obtain ⟨first, others, rfl, same⟩ : ∃ first others, arguments = first ++ others ∧ first.length = before.length :=
    ⟨_, _, (List.take_append_drop before.length arguments).symm, List.length_take_of_le enough⟩
  have zipped : (before.zip first).length = before.length := by rw [List.length_zip, same, Nat.min_self]
  have inserted := insertIdx_append first others argument
  rw [same] at inserted
  rw [inserted, bind_append fixed _ _ same, bind_cons fixed', bind_append fixed _ _ same, ← zipped]
  refine ⟨?_, ?_⟩
  · rw [List.getElem?_append_right (Nat.le_refl _), Nat.sub_self]
    rfl
  · rw [← insertIdx_append, List.eraseIdx_insertIdx_self]

end Listing

end TraceWeave
