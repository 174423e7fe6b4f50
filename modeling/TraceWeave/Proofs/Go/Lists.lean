import TraceWeave.Proofs.Go.Excerpts
import TraceWeave.Proofs.Go.LayoutFiles
import TraceWeave.Proofs.Listing
import TraceWeave.Proofs.Agent

/-!
Lists in a text. The runs of tokens between the commas of a list are what its text by itself is read as, and one more
item before a run, behind the last one or in an empty list is one more run there.
-/
namespace TraceWeave

/-- An edit puts another text in the place of a span, and leaves the rest of the source as it was. -/
def Edit.Gives (source : String) (start stop : Nat) (edit : Edit) (text : String) : Prop :=
  perform source [edit] = .ok (Text.slice source 0 start ++ text ++ Text.slice source stop (Text.size source))

/-- What an edit gives is a list of some items. -/
def Edit.Becomes (source : String) (start stop : Nat) (edit : Edit) (items : List (List Go.Symbol)) : Prop :=
  ∃ longer, edit.Gives source start stop longer ∧ Listing.items? longer = some items

namespace Go

open Lexeme
open Listing (IsRun IsItem items? items?_eq)

/-! Runs between commas, cut in two. -/

section Lined

variable {α β : Type} {isComma : α → Prop} {isComma' : β → Prop} {run used before behind : List α}
  {runs front back : List (List α)}

/-- Runs of a list with a comma behind each. -/
inductive Rows (isComma : α → Prop) : List (List α) → List α → Prop
  | nil : Rows isComma [] []
  | cons (run : List α) {comma : α} {runs : List (List α)} {used : List α} (mark : isComma comma)
      (rows : Rows isComma runs used) : Rows isComma (run :: runs) (run ++ comma :: used)

theorem Lined.map (f : α → β) (marks : ∀ comma, isComma comma → isComma' (f comma)) (lined : Lined isComma runs used) :
    Lined isComma' (runs.map (List.map f)) (used.map f) := by
  induction lined with
  | none => exact .none
  | comma mark => exact .comma (marks _ mark)
  | last run => exact .last _
  | trailing run mark =>
      rw [List.map_append]
      exact .trailing _ (marks _ mark)
  | more run mark others _ ih =>
      rw [List.map_append]
      exact .more _ (marks _ mark) (by simpa using others) ih

theorem Rows.map (f : α → β) (marks : ∀ comma, isComma comma → isComma' (f comma)) (rows : Rows isComma runs used) :
    Rows isComma' (runs.map (List.map f)) (used.map f) := by
  induction rows with
  | nil => exact .nil
  | cons run mark _ ih =>
      rw [List.map_append]
      exact .cons _ (marks _ mark) ih

theorem Rows.lined (rows : Rows isComma front before) (some_ : back ≠ []) (lined : Lined isComma back behind) :
    Lined isComma (front ++ back) (before ++ behind) := by
  induction rows with
  | nil => exact lined
  | @cons run comma runs used mark _ ih =>
      rw [List.append_assoc]
      exact .more run mark (fun none => some_ (List.append_eq_nil_iff.1 none).2) ih

/-- The commas of a list come between any two parts of it. -/
theorem Lined.split (lined : Lined isComma (front ++ back) used) (some_ : back ≠ []) :
    ∃ before behind, used = before ++ behind ∧ Rows isComma front before ∧ Lined isComma back behind := by
  induction front generalizing used with
  | nil => exact ⟨[], used, rfl, .nil, lined⟩
  | cons run front ih =>
      generalize whole : run :: front ++ back = runs at lined
      have rest : ∀ {runs : List (List α)}, run :: front ++ back = [run] ++ runs → runs ≠ [] := by
        rintro runs same rfl
        exact some_ (List.append_eq_nil_iff.1 (List.cons.inj same).2).2
      cases lined with
      | none => cases whole
      | comma mark => cases whole
      | last run => exact absurd rfl (rest (by rw [whole, (List.cons.inj whole).1]; rfl))
      | trailing run mark => exact absurd rfl (rest (by rw [whole, (List.cons.inj whole).1]; rfl))
      | more run mark others lined =>
          obtain ⟨rfl, rfl⟩ := List.cons.inj whole
          obtain ⟨before, behind, rfl, rows, lined⟩ := ih lined
          exact ⟨_, behind, by rw [List.append_assoc]; rfl, .cons run mark rows, lined⟩

/-- What follows the first run of a list begins with a comma. -/
theorem Lined.first (lined : Lined isComma (run :: runs) used) :
    ∃ rest, used = run ++ rest ∧ ∀ token ∈ rest.head?, isComma token := by
  generalize whole : run :: runs = all at lined
  cases lined with
  | none => cases whole
  | comma mark => cases whole
  | last run =>
      cases whole
      exact ⟨[], (List.append_nil _).symm, by simp⟩
  | @trailing run comma mark =>
      cases whole
      exact ⟨[comma], rfl, by simpa using mark⟩
  | @more run comma _ used mark _ lined =>
      cases whole
      exact ⟨comma :: used, rfl, by simpa using mark⟩

theorem Lined.mem {token : α} (lined : Lined isComma runs used) (member : run ∈ runs) (inside : token ∈ run) :
    token ∈ used := by
  obtain ⟨front, back, rfl⟩ := List.append_of_mem member
  obtain ⟨before, behind, rfl, _, lined⟩ := lined.split (List.cons_ne_nil _ _)
  obtain ⟨rest, rfl, _⟩ := lined.first
  exact List.mem_append_right _ (List.mem_append_left _ inside)

/-- What follows the last run of a list is a comma or nothing. -/
theorem Lined.single (lined : Lined isComma [run] used) :
    ∃ rest, used = run ++ rest ∧ (rest = [] ∨ ∃ comma, isComma comma ∧ rest = [comma]) := by
  generalize whole : [run] = all at lined
  cases lined with
  | none => cases whole
  | comma mark => cases whole
  | last run =>
      cases whole
      exact ⟨[], (List.append_nil _).symm, .inl rfl⟩
  | @trailing run comma mark =>
      cases whole
      exact ⟨[comma], rfl, .inr ⟨comma, mark, rfl⟩⟩
  | more run mark others lined =>
      cases whole
      exact absurd rfl others

theorem Lined.of_nil (lined : Lined isComma [] used) : used = [] ∨ ∃ comma, isComma comma ∧ used = [comma] := by
  cases lined with
  | none => exact .inl rfl
  | comma mark => exact .inr ⟨_, mark, rfl⟩

theorem Rows.last (rows : Rows isComma front before) : before = [] ∨ ∃ init comma, before = init ++ [comma] ∧ isComma comma := by
  induction rows with
  | nil => exact .inl rfl
  | @cons run comma runs used mark _ ih =>
      rcases ih with rfl | ⟨init, last, rfl, mark'⟩
      · exact .inr ⟨run, comma, rfl, mark⟩
      · exact .inr ⟨run ++ comma :: init, last, by simp, mark'⟩

end Lined

/-! Lists among the tokens of a text. -/

/-- Where a list stands among the tokens of a text, and the runs between its commas. -/
structure Listed (source : String) (start stop : Nat) (early : List Token) (opening : Token) (inner : List Token)
    (closing : Token) (late : List Token) (runs : List (List Token)) : Prop where
  split : Token.program source = early ++ (opening :: (inner ++ [closing])) ++ late
  opens : opening.isMark "(" = true
  closes : closing.isMark ")" = true
  starts : opening.start = start
  stops : closing.stop = stop
  lined : Token.Lined runs inner
  each : ∀ run ∈ runs, Token.Keeps 0 run ∧ run ≠ []

/-- The tokens that a parser takes for a list belong to the program. -/
theorem exists_listed {α : Type} {source : String} {start stop : Nat} {opening closing : Token} {inner : List Token}
    {runs : List (List Token)} {parts : List α} {spells : List Token → α → Prop}
    (enclosed : Node.Enclosed ((Token.list source).filter Token.isProgram) start stop opening inner closing)
    (lined : Token.Lined runs inner) (spelled : List.Forall₂ spells runs parts)
    (filled : ∀ run part, spells run part → Token.Keeps 0 run ∧ run ≠ []) :
    ∃ early late, Listed source start stop early opening inner closing late runs := by
  have each : ∀ run ∈ runs, Token.Keeps 0 run ∧ run ≠ [] :=
    ((List.forall₂_and_left runs parts).1 (spelled.imp fun run part known => ⟨filled run part known, known⟩)).1
  have keeps : Token.Keeps 0 (opening :: (inner ++ [closing])) :=
    Token.keeps_brackets enclosed.opens enclosed.closes (by decide) (lined.keeps fun run member => (each run member).1.inner)
      (Token.keeps_nil _)
  have kept := enclosed.listed.filter (·.kind != .eof)
  rw [List.filter_eq_self.2, List.filter_filter] at kept
  · have same : (Token.list source).filter (fun token => token.kind != .eof && token.isProgram) = Token.program source := by
      refine List.filter_congr fun token _ => ?_
      rw [Token.isProgram, Token.symbol, Symbol.isProgram, Bool.and_comm]
      rfl
    rw [same] at kept
    obtain ⟨early, late, split⟩ := kept
    exact ⟨early, late, split.symm, enclosed.opens, enclosed.closes, enclosed.starts, enclosed.stops, lined, each⟩
  · intro token member
    have program := (keeps.sound token member).1
    rw [Symbol.isProgram, Bool.and_eq_true] at program
    exact program.2

namespace Listed

open Token (Halves Whole symbol symbol_of_isMark apart_of_split whole_of_mem mem_program startOf? stopOf?)

variable {source text : String} {start stop offset : Nat} {early inner late front back : List Token}
  {opening closing : Token} {runs : List (List Token)}
  (listed : Listed source start stop early opening inner closing late runs)
include listed

theorem mem {token : Token} (member : token ∈ opening :: (inner ++ [closing])) : token ∈ Token.program source := by
  rw [listed.split]
  exact List.mem_append_left _ (List.mem_append_right _ member)

theorem sound : ∀ token ∈ opening :: (inner ++ [closing]), token.kind ≠ .bad := by
  have keeps : Token.Keeps 0 (opening :: (inner ++ [closing])) :=
    Token.keeps_brackets listed.opens listed.closes (by decide)
      (listed.lined.keeps fun run member => (listed.each run member).1.inner) (Token.keeps_nil _)
  exact fun token member => (keeps.sound token member).2

/-- The list on two sides of an offset. -/
theorem halves (split : inner = front ++ back) (whole : Whole source offset)
    (lower : ∀ token ∈ (opening :: front).getLast?, token.stop ≤ offset)
    (upper : ∀ token ∈ (back ++ [closing]).head?, offset ≤ token.start) :
    Halves source early (opening :: front) (back ++ [closing]) late opening closing offset where
  split := by rw [listed.split, split]; simp
  opens := ⟨rfl, listed.opens⟩
  closes := ⟨List.getLast?_concat, listed.closes⟩
  sound := by
    have sound := listed.sound
    rw [split] at sound
    simpa using sound
  whole := whole
  lower := lower
  upper := upper

theorem apart (split : inner = front ++ back) : ∀ a ∈ opening :: front, ∀ b ∈ back ++ [closing], a.stop ≤ b.start := by
  intro a member b member'
  have whole : Token.program source = (early ++ (opening :: front)) ++ ((back ++ [closing]) ++ late) := by
    rw [listed.split, split]
    simp
  exact apart_of_split whole a (List.mem_append_right _ member) b (List.mem_append_left _ member')

/-- The list before the beginning of a token. -/
theorem halves_start {token : Token} (split : inner = front ++ back) (first : (back ++ [closing]).head? = some token) :
    Halves source early (opening :: front) (back ++ [closing]) late opening closing token.start := by
  have member := List.mem_of_mem_head? first
  have program : token ∈ Token.program source := listed.mem (by
    rw [split, List.append_assoc]
    exact List.mem_cons_of_mem _ (List.mem_append_right _ member))
  refine listed.halves split (whole_of_mem (mem_program.1 program).1).1 (fun other last => ?_) fun other found => ?_
  · exact listed.apart split other (List.mem_of_getLast? last) token member
  · cases first.symm.trans found
    exact Nat.le_refl _

/-- The list behind the end of a token. -/
theorem halves_stop {token : Token} (split : inner = front ++ back) (last : (opening :: front).getLast? = some token) :
    Halves source early (opening :: front) (back ++ [closing]) late opening closing token.stop := by
  have member := List.mem_of_getLast? last
  have program : token ∈ Token.program source := listed.mem (by
    rw [split, List.append_assoc, ← List.cons_append]
    exact List.mem_append_left _ member)
  refine listed.halves split (whole_of_mem (mem_program.1 program).1).2 (fun other found => ?_) fun other first => ?_
  · cases last.symm.trans found
    exact Nat.le_refl _
  · exact listed.apart split token member other (List.mem_of_mem_head? first)

omit listed in
/-- The characters of a list on two sides of an offset. -/
theorem exists_cut (halves : Halves source early front back late opening closing offset) :
    ∃ before afore aft rest, Text.Cut source opening.start before (afore ++ (aft ++ rest)) ∧
      opening.start + Text.byteCount afore = offset ∧ offset + Text.byteCount aft = closing.stop ∧
      Text.slice source opening.start offset = String.ofList afore ∧
      Text.slice source offset closing.stop = String.ofList aft := by
  obtain ⟨before, after, cut⟩ := Text.isBoundary_iff.1 (whole_of_mem (mem_program.1 halves.listed_opening).1).1.boundary
  obtain ⟨before', after', cut'⟩ := Text.isBoundary_iff.1 halves.whole.boundary
  obtain ⟨before'', after'', cut''⟩ := Text.isBoundary_iff.1 (whole_of_mem (mem_program.1 halves.listed_closing).1).2.boundary
  have lower := (halves.front_excerpt.bounds.2.1 opening (List.mem_of_mem_head? halves.opens.1)).2
  have wide := Token.wide_of_program halves.listed_opening
  have upper := (halves.back_excerpt.bounds.2.1 closing (List.mem_of_getLast? halves.closes.1)).1
  have wide' := Token.wide_of_program halves.listed_closing
  obtain ⟨afore, rfl, rfl⟩ := cut.exists_between cut' (by omega)
  obtain ⟨aft, rfl, rfl⟩ := cut'.exists_between cut'' (by omega)
  refine ⟨before, afore, aft, after'', cut, ?_, ?_, cut.slice_eq cut', cut'.slice_eq cut''⟩
  · rw [← cut.size, ← Text.byteCount_append, cut'.size]
  · rw [← cut'.size, ← Text.byteCount_append, cut''.size]

omit listed in
theorem isRun_map {run : List Token} (known : Token.Keeps 0 run ∧ run ≠ []) : IsRun (run.map symbol) :=
  ⟨known.1 0 (Nat.le_refl _), by simpa using known.2⟩

theorem isRun_runs : ∀ run ∈ runs.map (List.map symbol), IsRun run := by
  intro run member
  obtain ⟨tokens, listed', rfl⟩ := List.mem_map.1 member
  exact isRun_map (listed.each tokens listed')

theorem symbols_eq : (opening :: (inner ++ [closing])).map symbol =
    ⟨.mark, "("⟩ :: (inner.map symbol ++ [⟨.mark, ")"⟩]) := by
  simp [symbol_of_isMark listed.opens, symbol_of_isMark listed.closes]

omit listed in
theorem symbol_comma (comma : Token) (mark : comma.isMark "," = true) : comma.symbol = ⟨.mark, ","⟩ :=
  symbol_of_isMark mark

/-- Behind its opening parenthesis. -/
theorem stop_opening : opening.stop = start + 1 := by
  have member := listed.mem List.mem_cons_self
  have single : opening.isMark (String.singleton '(') = true := listed.opens
  rw [(Token.cut_of_isMark (mem_program.1 member).1 single).2, listed.starts]
  rfl

omit listed in
/-- Text put in at an offset of a list, with the rest of the text as it was. -/
theorem gives_insertAt (halves : Halves source early front back late opening closing offset) (text : String) :
    Edit.Gives source opening.start closing.stop (.insertAt offset text)
      (Text.slice source opening.start offset ++ text ++ Text.slice source offset closing.stop) := by
  have starts := (whole_of_mem (mem_program.1 halves.listed_opening).1).1.boundary
  have stops := (whole_of_mem (mem_program.1 halves.listed_closing).1).2.boundary
  obtain ⟨_, _, _, _, _, size, size', _⟩ := exists_cut halves
  rw [Edit.Gives, Edit.perform_insertAt halves.whole.boundary, ← Text.slice_append (Text.isBoundary_zero source) starts
    halves.whole.boundary (Nat.zero_le _) (by omega), ← Text.slice_append halves.whole.boundary stops
    (Text.isBoundary_size source) (by omega) (Text.le_size_of_isBoundary stops)]
  simp only [String.append_assoc]

/-- A list is read from its text alone. -/
theorem items : items? (Text.slice source start stop) = some (runs.map (List.map symbol)) := by
  have halves : Halves source early [opening] (inner ++ [closing]) late opening closing opening.stop :=
    listed.halves_stop rfl rfl
  obtain ⟨before, afore, aft, rest, cut, size, size', slice, slice'⟩ := exists_cut halves
  have whole := halves.ofText_whole rfl rfl cut size size'
  rw [← List.map_append, List.cons_append, List.nil_append, listed.symbols_eq, String.ofList_append, ← slice, ← slice',
    Text.slice_append, listed.starts, listed.stops] at whole
  · exact items?_eq whole (listed.lined.map symbol symbol_comma) listed.isRun_runs
  · exact (whole_of_mem (mem_program.1 halves.listed_opening).1).1.boundary
  · exact halves.whole.boundary
  · exact (whole_of_mem (mem_program.1 halves.listed_closing).1).2.boundary
  · omega
  · omega

/-- What is put in at an offset of the list is read with the rest of it. -/
theorem becomes_of_read (halves : Halves source early front back late opening closing offset) {inserted : String}
    {items : List (List Symbol)} (symbols : List Symbol)
    (read : ∀ before afore aft rest, Text.Cut source opening.start before (afore ++ (aft ++ rest)) →
      opening.start + Text.byteCount afore = offset → offset + Text.byteCount aft = closing.stop →
      Symbol.ofText (String.ofList (afore ++ inserted.toList ++ aft)) = ⟨.mark, "("⟩ :: (symbols ++ [⟨.mark, ")"⟩]))
    (lined : Lined (· = (⟨.mark, ","⟩ : Symbol)) items symbols) (each : ∀ run ∈ items, IsRun run) :
    Edit.Becomes source start stop (.insertAt offset inserted) items := by
  obtain ⟨before, afore, aft, rest, cut, size, size', slice, slice'⟩ := exists_cut halves
  have performed := gives_insertAt halves inserted
  rw [listed.starts, listed.stops] at performed
  refine ⟨_, performed, items?_eq ?_ lined each⟩
  rw [← listed.starts, ← listed.stops, slice, slice', ← read before afore aft rest cut size size']
  rw [String.ofList_append, String.ofList_append, String.ofList_toList]

/-- One more item before a run. -/
theorem becomes_before {runs' others : List (List Token)} {run : List Token} (split : runs = runs' ++ run :: others)
    (starts : startOf? run = some offset) (item : IsItem text) :
    Edit.Becomes source start stop (.insertAt offset (text ++ ", "))
      (runs'.map (List.map symbol) ++ Symbol.ofText text :: (run :: others).map (List.map symbol)) := by
  have lined := listed.lined
  rw [split] at lined
  obtain ⟨before, behind, cut, rows, later⟩ := lined.split (by simp)
  obtain ⟨rest, first, _⟩ := later.first
  obtain ⟨token, head, rfl⟩ := Option.map_eq_some_iff.1 starts
  have head' : (behind ++ [closing]).head? = some token := by
    rw [first, List.append_assoc, List.head?_append, head]
    rfl
  have halves := listed.halves_start cut head'
  refine listed.becomes_of_read halves (before.map symbol ++ (Symbol.ofText text ++ ⟨.mark, ","⟩ :: behind.map symbol))
    (fun before' afore aft rest' cut' size size' => ?_) ?_ ?_
  · -- what stands before the run is a comma or the parenthesis
    obtain ⟨c, is, init, mark, whole, marks⟩ : ∃ c ∈ ['(', ')', ','], ∃ init mark, opening :: before = init ++ [mark] ∧
        mark.isMark (String.singleton c) = true := by
      rcases rows.last with rfl | ⟨init, comma, rfl, mark⟩
      · exact ⟨'(', by decide, [], opening, rfl, listed.opens⟩
      · exact ⟨',', by decide, opening :: init, comma, rfl, mark⟩
    rw [halves.ofText_before is whole marks head' rfl item.toIsPhrase cut' size size']
    simp [symbol_of_isMark listed.opens, symbol_of_isMark listed.closes]
  · refine (rows.map symbol symbol_comma).lined (by simp) (.more _ rfl (by simp) ?_)
    exact later.map symbol symbol_comma
  · have each := listed.isRun_runs
    rw [split, List.map_append, List.forall_mem_append] at each
    exact List.forall_mem_append.2 ⟨each.1, List.forall_mem_cons.2 ⟨item.isRun, each.2⟩⟩

/-- One more item behind the last run. -/
theorem becomes_behind {runs' : List (List Token)} {run : List Token} (split : runs = runs' ++ [run])
    (stops : stopOf? run = some offset) (item : IsItem text) :
    Edit.Becomes source start stop (.insertAt offset (", " ++ text)) (runs.map (List.map symbol) ++ [Symbol.ofText text]) := by
  have lined := listed.lined
  rw [split] at lined
  obtain ⟨before, behind, cut, rows, later⟩ := lined.split (by simp)
  obtain ⟨rest, rfl, ends⟩ := later.single
  obtain ⟨token, last, rfl⟩ := Option.map_eq_some_iff.1 stops
  rw [← List.append_assoc] at cut
  have last' : (opening :: (before ++ run)).getLast? = some token := by
    rw [← List.cons_append, List.getLast?_append, last]
    rfl
  have halves := listed.halves_stop cut last'
  refine listed.becomes_of_read halves (before.map symbol ++ (run.map symbol ++ ⟨.mark, ","⟩ ::
    (Symbol.ofText text ++ rest.map symbol))) (fun before' afore aft rest' cut' size size' => ?_) ?_ ?_
  · rw [halves.ofText_behind (fun other found => ?_) (fun other first => ?_) item.toIsPhrase cut' size size']
    · simp [symbol_of_isMark listed.opens, symbol_of_isMark listed.closes]
    · cases last'.symm.trans found
      rfl
    · rcases ends with rfl | ⟨comma, mark, rfl⟩
      · cases first
        exact .inr listed.closes
      · cases first
        exact .inl mark
  · rw [split, List.map_append, List.append_assoc]
    refine (rows.map symbol symbol_comma).lined (by simp) (.more _ rfl (by simp) ?_)
    rcases ends with rfl | ⟨comma, mark, rfl⟩
    · show Go.Lined _ [Symbol.ofText text] (Symbol.ofText text ++ [])
      rw [List.append_nil]
      exact .last _
    · exact .trailing _ (symbol_comma comma mark)
  · exact List.forall_mem_append.2 ⟨listed.isRun_runs, List.forall_mem_singleton.2 item.isRun⟩

/-- An item in an empty list. -/
theorem becomes_inside (none : runs = []) (item : IsItem text) :
    Edit.Becomes source start stop (.insertAt (start + 1) text) [Symbol.ofText text] := by
  have lined := listed.lined
  rw [none] at lined
  have ends := lined.of_nil
  have halves : Halves source early [opening] (inner ++ [closing]) late opening closing opening.stop :=
    listed.halves_stop rfl rfl
  rw [listed.stop_opening] at halves
  refine listed.becomes_of_read halves (Symbol.ofText text ++ inner.map symbol)
    (fun before' afore aft rest' cut' size size' => ?_) ?_ ?_
  · rw [halves.ofText_inside rfl listed.stop_opening (fun other first => ?_) item.toIsPhrase cut' size size']
    · simp [symbol_of_isMark listed.opens, symbol_of_isMark listed.closes]
    · rcases ends with rfl | ⟨comma, mark, rfl⟩
      · cases first
        exact .inr listed.closes
      · cases first
        exact .inl mark
  · rcases ends with rfl | ⟨comma, mark, rfl⟩
    · rw [List.map_nil, List.append_nil]
      exact .last _
    · exact .trailing _ (symbol_comma comma mark)
  · exact List.forall_mem_singleton.2 item.isRun

/-- Some tokens of a list, with their own ends. -/
theorem excerpt {before used rest : List Token} {first last : Token} (split : inner = before ++ (used ++ rest))
    (head : used.head? = some first) (tail : used.getLast? = some last) :
    Token.Excerpt source first.start last.stop (early ++ (opening :: before)) used ((rest ++ [closing]) ++ late) := by
  have split' : inner = (before ++ used) ++ rest := by rw [split, List.append_assoc]
  have head' : ((used ++ rest) ++ [closing]).head? = some first := by
    rw [List.append_assoc, List.head?_append, head]
    rfl
  have tail' : (opening :: (before ++ used)).getLast? = some last := by
    rw [← List.cons_append, List.getLast?_append, tail]
    rfl
  exact
    { split := by rw [listed.split, split]; simp
      lower := (listed.halves_start split head').back_excerpt.lower
      first := fun token found => by
        cases head.symm.trans found
        exact Nat.le_refl _
      last := fun token found => by
        cases tail.symm.trans found
        exact Nat.le_refl _
      upper := (listed.halves_stop split' tail').front_excerpt.upper }

/-- A phrase at the end of a run is read from its text alone. -/
theorem ofText_phrase {run used : List Token} (member : run ∈ runs) (ends : used <:+ run) {node : Node}
    (covers : Node.Covers used node) : Symbol.ofText (node.text source) = used.map symbol := by
  obtain ⟨runs', others, split⟩ := List.append_of_mem member
  have lined := listed.lined
  rw [split] at lined
  obtain ⟨before, behind, cut, rows, later⟩ := lined.split (by simp)
  obtain ⟨rest, rfl, next⟩ := later.first
  obtain ⟨pre, rfl⟩ := ends
  obtain ⟨first, head, starts⟩ := Option.map_eq_some_iff.1 covers.starts
  obtain ⟨last, tail, stops⟩ := Option.map_eq_some_iff.1 covers.stops
  have excerpt := listed.excerpt (by rw [cut]; simp : inner = (before ++ pre) ++ (used ++ rest)) head tail
  have here := excerpt.mem (List.mem_of_mem_head? head)
  have there := excerpt.mem (List.mem_of_getLast? tail)
  have upper : Halves source early (opening :: (before ++ (pre ++ used))) (rest ++ [closing]) late opening closing
      last.stop := by
    refine listed.halves_stop (by rw [cut]; simp) ?_
    rw [← List.append_assoc, ← List.cons_append, List.getLast?_append, tail]
    rfl
  have whole := (whole_of_mem (mem_program.1 here).1).1
  obtain ⟨before', after, cut'⟩ := Text.isBoundary_iff.1 whole.boundary
  obtain ⟨before'', after', cut''⟩ := Text.isBoundary_iff.1 upper.whole.boundary
  have order := (excerpt.bounds.2.1 first (List.mem_of_mem_head? head)).2
  have wide := Token.wide_of_program here
  obtain ⟨cs, rfl, rfl⟩ := cut'.exists_between cut'' (by omega)
  have size : first.start + Text.byteCount cs = last.stop := by rw [← cut'.size, ← Text.byteCount_append, cut''.size]
  rw [Node.text, ← starts, ← stops, cut'.slice_eq cut'']
  refine excerpt.ofText tail (fun token member => ?_) whole ⟨first, (mem_program.1 here).1, Nat.le_refl _⟩ cut' size ?_
  · exact (covers.keeps.sound token member).2
  · refine upper.stopped_back (fun token found => ?_) cut''
    cases rest with
    | nil =>
        cases found
        exact .inr listed.closes
    | cons comma rest =>
        cases found
        exact .inl (next _ rfl)

/-- Runs that phrases were read from are read as those phrases by themselves. -/
theorem symbols_of_covers {parts : List Node} (covers : List.Forall₂ Node.Covers runs parts) :
    runs.map (List.map symbol) = parts.map fun part => Symbol.ofText (part.text source) := by
  refine List.ext_getElem (by simp [covers.length_eq]) fun index lower upper => ?_
  simp only [List.length_map] at lower upper
  simp only [List.getElem_map]
  exact (listed.ofText_phrase (List.getElem_mem lower) (List.suffix_refl _) (covers.get lower upper)).symm

end Listed

end Go
end TraceWeave
