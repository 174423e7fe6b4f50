import TraceWeave.Proofs.Go.Passages

/-!
Brackets and commas. A phrase closes the brackets it opens and no others, and the commas in it stand between its own
brackets, so the commas of a list are those that no bracket inside it surrounds.
-/
namespace TraceWeave.Go

namespace Symbol

def openingMarks : List String := ["(", "[", "\x7b"]

def closingMarks : List String := [")", "]", "\x7d"]

/-- How many brackets are open after a symbol. With none open, a closing bracket or a comma has no place. -/
def step (depth : Nat) (symbol : Symbol) : Option Nat :=
  match symbol.kind with
  | .bad | .comment | .eof => none
  | .mark =>
      if openingMarks.contains symbol.text then some (depth + 1)
      else if closingMarks.contains symbol.text then if depth = 0 then none else some (depth - 1)
      else if symbol.text == "," then if depth = 0 then none else some depth
      else some depth
  | _ => some depth

/-- How many brackets are open after some symbols. -/
def walk (depth : Nat) (symbols : List Symbol) : Option Nat := symbols.foldlM step depth

/-- Symbols that leave as many brackets open as they find, if they find at least so many. -/
def Keeps (least : Nat) (symbols : List Symbol) : Prop := ∀ depth, least ≤ depth → walk depth symbols = some depth

variable {least depth depth' : Nat} {symbol : Symbol} {symbols symbols' : List Symbol}

theorem walk_append (depth : Nat) (symbols symbols' : List Symbol) :
    walk depth (symbols ++ symbols') = (walk depth symbols).bind (walk · symbols') := List.foldlM_append

theorem walk_cons (depth : Nat) (symbol : Symbol) (symbols : List Symbol) :
    walk depth (symbol :: symbols) = (symbol.step depth).bind (walk · symbols) := List.foldlM_cons

theorem keeps_nil (least : Nat) : Keeps least [] := fun _ _ => rfl

theorem Keeps.mono (keeps : Keeps least symbols) {least' : Nat} (bound : least ≤ least') : Keeps least' symbols :=
  fun depth enough => keeps depth (Nat.le_trans bound enough)

theorem Keeps.append (keeps : Keeps least symbols) (keeps' : Keeps least symbols') : Keeps least (symbols ++ symbols') := by
  intro depth enough
  rw [walk_append, keeps depth enough, Option.bind_some, keeps' depth enough]

theorem Keeps.cons (step : ∀ depth, least ≤ depth → symbol.step depth = some depth) (keeps : Keeps least symbols) :
    Keeps least (symbol :: symbols) := by
  intro depth enough
  rw [walk_cons, step depth enough, Option.bind_some, keeps depth enough]

/-- Nothing out of place is passed. -/
theorem isProgram_of_walk (found : walk depth symbols = some depth') :
    ∀ symbol ∈ symbols, symbol.isProgram = true ∧ symbol.kind ≠ .bad := by
  induction symbols generalizing depth with
  | nil => simp
  | cons symbol symbols ih =>
      rw [walk_cons] at found
      obtain ⟨middle, first, later⟩ := Option.bind_eq_some_iff.1 found
      refine List.forall_mem_cons.2 ⟨?_, ih later⟩
      unfold step at first
      unfold isProgram
      split at first
      · cases first
      · cases first
      · cases first
      · rename_i mark
        rw [mark]
        decide
      · rename_i bad comment eof _
        refine ⟨?_, bad⟩
        rw [Bool.and_eq_true, bne_iff_ne, bne_iff_ne]
        exact ⟨comment, eof⟩

end Symbol

/-! Tokens. -/

/-- A token that is neither a bracket nor a comma. -/
def Token.Plain (token : Token) : Prop := ∀ depth, token.symbol.step depth = some depth

def Token.Opens (token : Token) : Prop := ∀ depth, token.symbol.step depth = some (depth + 1)

def Token.Closes (token : Token) : Prop := ∀ depth, token.symbol.step (depth + 1) = some depth

namespace Token

variable {token : Token} {text : String}

theorem isMark_iff : token.isMark text = true ↔ token.kind = .mark ∧ token.text = text := by
  simp [isMark]

theorem plain_of_isMark (mark : token.isMark text = true)
    (apart : text ∉ Symbol.openingMarks ++ Symbol.closingMarks ++ [","]) : token.Plain := by
  intro depth
  obtain ⟨kind, rfl⟩ := isMark_iff.1 mark
  simp only [List.mem_append, not_or, List.mem_singleton] at apart
  simp [symbol, Symbol.step, kind, apart]

theorem plain_of_kind (mark : token.kind ≠ .mark) (sound : token.kind ∉ [TokenKind.bad, .comment, .eof]) : token.Plain := by
  intro depth
  simp only [List.mem_cons, List.not_mem_nil, or_false, not_or] at sound
  unfold Symbol.step symbol
  dsimp only
  split
  · exact absurd ‹_› sound.1
  · exact absurd ‹_› sound.2.1
  · exact absurd ‹_› sound.2.2
  · exact absurd ‹_› mark
  · rfl

theorem plain_of_word (word : token.kind = .word) : token.Plain :=
  plain_of_kind (by simp [word]) (by simp [word])

theorem opens_of_isMark (mark : token.isMark text = true) (opens : text ∈ Symbol.openingMarks) : token.Opens := by
  intro depth
  obtain ⟨kind, rfl⟩ := isMark_iff.1 mark
  simp [symbol, Symbol.step, kind, opens]

theorem closes_of_isMark (mark : token.isMark text = true) (closes : text ∈ Symbol.closingMarks) : token.Closes := by
  intro depth
  obtain ⟨kind, rfl⟩ := isMark_iff.1 mark
  have apart : ∀ text ∈ Symbol.closingMarks, text ∉ Symbol.openingMarks := by decide
  simp [symbol, Symbol.step, kind, closes, apart _ closes]

theorem comma_step (mark : token.isMark "," = true) {depth : Nat} (inside : 1 ≤ depth) :
    token.symbol.step depth = some depth := by
  obtain ⟨kind, text⟩ := isMark_iff.1 mark
  have apart : "," ∉ Symbol.openingMarks ∧ "," ∉ Symbol.closingMarks := by decide
  simp [symbol, Symbol.step, kind, text, apart]
  omega

/-- Tokens that leave as many brackets open as they find, if they find at least so many. -/
def Keeps (least : Nat) (used : List Token) : Prop := Symbol.Keeps least (used.map symbol)

variable {least : Nat} {used used' : List Token} {opening closing : Token}

@[simp] theorem keeps_nil (least : Nat) : Keeps least [] := Symbol.keeps_nil least

theorem Keeps.mono (keeps : Keeps least used) {least' : Nat} (bound : least ≤ least') : Keeps least' used :=
  Symbol.Keeps.mono keeps bound

theorem Keeps.inner (keeps : Keeps 0 used) : Keeps least used := keeps.mono (Nat.zero_le _)

theorem Keeps.append (keeps : Keeps least used) (keeps' : Keeps least used') : Keeps least (used ++ used') := by
  rw [Keeps, List.map_append]
  exact Symbol.Keeps.append keeps keeps'

theorem Plain.keeps (plain : token.Plain) (keeps : Keeps least used) : Keeps least (token :: used) :=
  Symbol.Keeps.cons (fun depth _ => plain depth) keeps

theorem keeps_comma (mark : token.isMark "," = true) (keeps : Keeps 1 used) : Keeps 1 (token :: used) :=
  Symbol.Keeps.cons (fun _ inside => comma_step mark inside) keeps

/-- A phrase in brackets, with what follows it. -/
theorem Opens.keeps (opens : opening.Opens) (inner : Keeps 1 used) (closes : closing.Closes) (keeps : Keeps least used') :
    Keeps least (opening :: (used ++ closing :: used')) := by
  intro depth enough
  rw [List.map_cons, Symbol.walk_cons, opens depth, Option.bind_some, List.map_append, Symbol.walk_append,
    inner (depth + 1) (by omega), Option.bind_some, List.map_cons, Symbol.walk_cons, closes depth, Option.bind_some,
    keeps depth enough]

theorem keeps_brackets {first last : String} (opens : opening.isMark first = true) (closes : closing.isMark last = true)
    (known : first ∈ Symbol.openingMarks ∧ last ∈ Symbol.closingMarks) (inner : Keeps 1 used) (keeps : Keeps least used') :
    Keeps least (opening :: (used ++ closing :: used')) :=
  (opens_of_isMark opens known.1).keeps inner (closes_of_isMark closes known.2) keeps

theorem Keeps.sound (keeps : Keeps least used) : ∀ token ∈ used, token.symbol.isProgram = true ∧ token.kind ≠ .bad :=
  fun _ member => Symbol.isProgram_of_walk (keeps least (Nat.le_refl _)) _ (List.mem_map_of_mem member)

/-! The ends of what was taken. -/

def startOf? (used : List Token) : Option Nat := used.head?.map Token.start

def stopOf? (used : List Token) : Option Nat := used.getLast?.map Token.stop

@[simp] theorem startOf?_cons (token : Token) (used : List Token) : startOf? (token :: used) = some token.start := rfl

@[simp] theorem startOf?_append (used used' : List Token) :
    startOf? (used ++ used') = (startOf? used).or (startOf? used') := by
  rw [startOf?, List.head?_append, Option.map_or]
  rfl

@[simp] theorem stopOf?_nil : stopOf? [] = none := rfl

@[simp] theorem stopOf?_append (used used' : List Token) :
    stopOf? (used ++ used') = (stopOf? used').or (stopOf? used) := by
  rw [stopOf?, List.getLast?_append, Option.map_or]
  rfl

@[simp] theorem stopOf?_cons (token : Token) (used : List Token) :
    stopOf? (token :: used) = (stopOf? used).or (some token.stop) := stopOf?_append [token] used

end Token

/-! Runs between commas. -/

/-- A list: runs with commas between them, and possibly one behind the last. -/
inductive Lined {α : Type} (isComma : α → Prop) : List (List α) → List α → Prop
  | none : Lined isComma [] []
  | comma {comma : α} (mark : isComma comma) : Lined isComma [] [comma]
  | last (run : List α) : Lined isComma [run] run
  | trailing (run : List α) {comma : α} (mark : isComma comma) : Lined isComma [run] (run ++ [comma])
  | more (run : List α) {comma : α} {runs : List (List α)} {used : List α} (mark : isComma comma) (others : runs ≠ [])
      (lined : Lined isComma runs used) : Lined isComma (run :: runs) (run ++ comma :: used)

abbrev Token.Lined : List (List Token) → List Token → Prop := Go.Lined fun token => token.isMark "," = true

theorem Token.Lined.keeps {runs : List (List Token)} {used : List Token} (lined : Token.Lined runs used)
    (keeps : ∀ run ∈ runs, Keeps 1 run) : Keeps 1 used := by
  induction lined with
  | none => exact keeps_nil _
  | comma mark => exact keeps_comma mark (keeps_nil _)
  | last run => exact keeps run (by simp)
  | trailing run mark => exact (keeps run (by simp)).append (keeps_comma mark (keeps_nil _))
  | more run mark _ _ ih =>
      obtain ⟨here, later⟩ := List.forall_mem_cons.1 keeps
      exact here.append (keeps_comma mark (ih later))

/-! Runs that stand on lines. -/

/-- A mark that ends a statement. -/
def Token.EndsLine (token : Token) : Prop := token.isMark ";" = true ∨ token.isMark "\x00" = true

/-- Runs that a line break or a mark stands between, and possibly one behind the last. -/
inductive Token.Ruled : List (List Token) → List Token → Prop
  | none : Ruled [] []
  | last (run : List Token) : Ruled [run] run
  | trailing (run : List Token) {mark : Token} (ends : mark.EndsLine) : Ruled [run] (run ++ [mark])
  | feed (run : List Token) {token : Token} {others : List Token} {runs : List (List Token)} {used : List Token}
      (feeds : token.newLine = true) (ruled : Ruled ((token :: others) :: runs) used) :
      Ruled (run :: (token :: others) :: runs) (run ++ used)
  | mark (run : List Token) {mark : Token} {runs : List (List Token)} {used : List Token} (ends : mark.EndsLine)
      (others : runs ≠ []) (ruled : Ruled runs used) : Ruled (run :: runs) (run ++ mark :: used)

theorem Token.EndsLine.keeps {token : Token} (ends : token.EndsLine) : Keeps 1 [token] := by
  rcases ends with mark | mark
  · exact (plain_of_isMark mark (by decide)).keeps (keeps_nil _)
  · exact (plain_of_isMark mark (by decide)).keeps (keeps_nil _)

theorem Token.Ruled.keeps {runs : List (List Token)} {used : List Token} (ruled : Token.Ruled runs used)
    (keeps : ∀ run ∈ runs, Keeps 1 run) : Keeps 1 used := by
  induction ruled with
  | none => exact keeps_nil _
  | last run => exact keeps run (by simp)
  | trailing run ends => exact (keeps run (by simp)).append ends.keeps
  | feed run _ _ ih =>
      obtain ⟨here, later⟩ := List.forall_mem_cons.1 keeps
      exact here.append (ih later)
  | mark run ends _ _ ih =>
      obtain ⟨here, later⟩ := List.forall_mem_cons.1 keeps
      exact here.append (ends.keeps.append (ih later))

end TraceWeave.Go
