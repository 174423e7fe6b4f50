import TraceWeave.Proofs.Go.Passages


/-!
Excerpts of a text. Between two offsets that lie in no token there are the tokens that begin there, and the
characters there are read as these, with what stands behind them in sight.
-/
namespace TraceWeave.Go

open Lexeme

namespace Token

variable {source : String} {start stop : Nat} {before cs rest : List Char} {tokens early inner late : List Token}
  {token : Token}

/-- Tokens of a text that begin between two offsets. -/
def between (source : String) (start stop : Nat) : List Token :=
  (list source).filter fun token => decide (start ≤ token.start) && decide (token.start < stop)

/-- Tokens of a text that belong to the program. -/
def program (source : String) : List Token := (list source).filter (·.symbol.isProgram)

theorem exists_list_eq (source : String) : ∃ offset before cs, Text.Cut source offset before cs ∧
    list source = listFrom offset false cs := by
  have start := Text.cut_start source
  unfold list
  split
  · rename_i c rest whole
    rw [whole] at start
    split
    · have further : Text.Cut source (0 + Text.byteCount [c]) ([] ++ [c]) rest := start.step
      rw [Nat.zero_add] at further
      exact ⟨_, _, _, further, rfl⟩
    · exact ⟨_, _, _, start, rfl⟩
  · rename_i whole
    rw [whole] at start
    exact ⟨_, _, _, start, rfl⟩

theorem le_start_of_listFrom {offset : Nat} {newLine : Bool} (member : token ∈ listFrom offset newLine cs) :
    offset ≤ token.start := by
  fun_induction listFrom offset newLine cs with
  | case1 offset newLine =>
      cases List.mem_singleton.1 member
      exact Nat.le_refl _
  | case2 offset newLine c rest space ih => exact Nat.le_trans (Nat.le_add_right _ _) (ih member)
  | case3 offset newLine c rest space kind more found lexeme stop ih =>
      rcases List.mem_cons.1 member with rfl | later
      · exact Nat.le_refl _
      · exact Nat.le_trans (Nat.le_add_right _ _) (ih later)

/-- The tokens of a text from an offset on that lies in none. -/
theorem exists_listFrom (whole : Whole source start) (behind : ∃ token ∈ list source, token.start ≤ start)
    (cut : Text.Cut source start before cs) :
    ∃ early newLine, list source = early ++ listFrom start newLine cs ∧
      ∀ token ∈ early, token.start < token.stop ∧ token.stop ≤ start := by
  obtain ⟨offset, before', cs', cut', same⟩ := exists_list_eq source
  obtain ⟨token, member, lower⟩ := behind
  have reached : offset ≤ start := Nat.le_trans (le_start_of_listFrom (same ▸ member)) lower
  obtain ⟨between, rfl, rfl⟩ := cut'.exists_between cut reached
  have offsets : offset + Text.byteCount between = start := by rw [← cut'.size, ← Text.byteCount_append, cut.size]
  obtain ⟨tokens, newLine', split, _, inside⟩ := exists_scans between (by
    rw [offsets, ← same]
    exact whole.outside)
  rw [offsets] at split inside
  exact ⟨tokens, newLine', same.trans split, fun token member => ⟨(inside token member).1, (inside token member).2.2⟩⟩

/-- Two offsets keep apart what is before, between and behind them. -/
theorem filter_eq_inner (split : tokens = early ++ inner ++ late) (lower : ∀ token ∈ early, token.start < start)
    (inside : ∀ token ∈ inner, start ≤ token.start ∧ token.start < stop) (upper : ∀ token ∈ late, stop ≤ token.start) :
    tokens.filter (fun token => decide (start ≤ token.start) && decide (token.start < stop)) = inner := by
  rw [split, List.filter_append, List.filter_append, List.filter_eq_nil_iff.2, List.filter_eq_self.2,
    List.filter_eq_nil_iff.2, List.nil_append, List.append_nil]
  · intro token member
    have bound := upper token member
    simp only [Bool.and_eq_true, decide_eq_true_eq, not_and]
    omega
  · intro token member
    simpa using inside token member
  · intro token member
    have bound := lower token member
    simp only [Bool.and_eq_true, decide_eq_true_eq, not_and]
    omega

/-- The characters between two offsets that lie in no token. -/
theorem scans_between (whole : Whole source start) (whole' : Whole source stop)
    (behind : ∃ token ∈ list source, token.start ≤ start) (cut : Text.Cut source start before (cs ++ rest))
    (size : start + Text.byteCount cs = stop) : Scans cs ((between source start stop).map symbol) rest := by
  obtain ⟨early, newLine, split, lower⟩ := exists_listFrom whole behind cut
  obtain ⟨inner, newLine', split', scans, inside⟩ := exists_scans cs (by
    intro token member
    rw [size]
    exact whole'.outside token (split ▸ List.mem_append_right _ member))
  rw [size] at split' inside
  have same : between source start stop = inner := by
    refine filter_eq_inner (by rw [split, split', List.append_assoc]) (fun token member => ?_) (fun token member => ?_)
      fun token member => le_start_of_listFrom member
    · have bounds := lower token member
      omega
    · have bounds := inside token member
      omega
  rwa [same]

theorem program_pairwise (source : String) : (program source).Pairwise fun a b => a.stop ≤ b.start :=
  (ordered_iff.1 (list_ordered source)).2.filter _

theorem mem_program : token ∈ program source ↔ token ∈ list source ∧ token.symbol.isProgram = true := List.mem_filter

theorem wide_of_program (member : token ∈ program source) : token.start < token.stop := by
  obtain ⟨member, isProgram⟩ := mem_program.1 member
  refine list_wide member fun eof => ?_
  simp [symbol, Symbol.isProgram, eof] at isProgram

theorem slice_of_program (member : token ∈ program source) : Text.slice source token.start token.stop = token.text := by
  obtain ⟨before, c, rest, cut, _, _, text, stop⟩ := list_isRead (mem_program.1 member).1 (wide_of_program member)
  have parts : Text.Cut source token.start before
      ((c :: rest.take (Lexeme.after c rest).2) ++ rest.drop (Lexeme.after c rest).2) := by
    rwa [List.cons_append, List.take_append_drop]
  rw [text, stop]
  exact parts.slice_eq parts.step

/-- The program between two offsets. -/
theorem filter_between (split : program source = early ++ inner ++ late) (lower : ∀ token ∈ early, token.stop ≤ start)
    (inside : ∀ token ∈ inner, start ≤ token.start ∧ token.stop ≤ stop) (upper : ∀ token ∈ late, stop ≤ token.start) :
    ((between source start stop).map symbol).filter Symbol.isProgram = inner.map symbol := by
  have wide : ∀ token ∈ early ++ inner ++ late, token.start < token.stop := fun token member =>
    wide_of_program (split ▸ member)
  have kept : (program source).filter (fun token => decide (start ≤ token.start) && decide (token.start < stop)) = inner := by
    refine filter_eq_inner split (fun token member => ?_) (fun token member => ?_) upper
    · have bound := lower token member
      have size := wide token (by simp [member])
      omega
    · have bounds := inside token member
      have size := wide token (by simp [member])
      omega
  rw [List.filter_map, between, List.filter_filter, ← kept, program, List.filter_filter]
  exact congrArg _ (List.filter_congr fun token _ => Bool.and_comm _ _)

/-- What stands last between two offsets. -/
theorem getLast?_between (member : token ∈ list source) (lower : start ≤ token.start) (wide : token.start < token.stop) :
    (between source start token.stop).getLast? = some token := by
  have listed : token ∈ between source start token.stop := List.mem_filter.2 ⟨member, by simp [lower, wide]⟩
  have order : (between source start token.stop).Pairwise fun a b => a.stop ≤ b.start :=
    (ordered_iff.1 (list_ordered source)).2.filter _
  obtain ⟨front, back, split⟩ := List.append_of_mem listed
  rw [split] at order ⊢
  have none : back = [] := by
    refine List.eq_nil_iff_forall_not_mem.2 fun other later => ?_
    have bound := (List.pairwise_cons.1 (List.pairwise_append.1 order).2.1).1 other later
    have inside : other ∈ between source start token.stop := by
      rw [split]
      exact List.mem_append_right _ (List.mem_cons_of_mem _ later)
    have limit := (List.mem_filter.1 inside).2
    simp only [Bool.and_eq_true, decide_eq_true_eq] at limit
    omega
  rw [none, List.getLast?_concat]

theorem stop_le_of_getLast? (order : tokens.Pairwise fun a b => a.stop ≤ b.start)
    (wide : ∀ token ∈ tokens, token.start < token.stop) (last : ∀ token ∈ tokens.getLast?, token.stop ≤ stop) :
    ∀ token ∈ tokens, token.stop ≤ stop := by
  intro token member
  rcases List.eq_nil_or_concat tokens with none | ⟨front, final, split⟩
  · rw [none] at member
    cases member
  rw [List.concat_eq_append] at split
  subst split
  have bound := last final (by simp)
  rcases List.mem_append.1 member with early | here
  · have before := (List.pairwise_append.1 order).2.2 token early final (by simp)
    have size := wide final (by simp)
    omega
  · rwa [List.mem_singleton.1 here]

theorem le_start_of_head? (order : tokens.Pairwise fun a b => a.stop ≤ b.start)
    (wide : ∀ token ∈ tokens, token.start < token.stop) (first : ∀ token ∈ tokens.head?, start ≤ token.start) :
    ∀ token ∈ tokens, start ≤ token.start := by
  intro token member
  cases tokens with
  | nil => cases member
  | cons front tokens =>
      have bound := first front rfl
      rcases List.mem_cons.1 member with rfl | later
      · exact bound
      · have before := (List.pairwise_cons.1 order).1 token later
        have size := wide front (by simp)
        omega

/-- Where an excerpt of a program stands. -/
structure Excerpt (source : String) (start stop : Nat) (early inner late : List Token) : Prop where
  split : program source = early ++ inner ++ late
  lower : ∀ token ∈ early.getLast?, token.stop ≤ start
  first : ∀ token ∈ inner.head?, start ≤ token.start
  last : ∀ token ∈ inner.getLast?, token.stop ≤ stop
  upper : ∀ token ∈ late.head?, stop ≤ token.start

theorem Excerpt.bounds (excerpt : Excerpt source start stop early inner late) :
    (∀ token ∈ early, token.stop ≤ start) ∧ (∀ token ∈ inner, start ≤ token.start ∧ token.stop ≤ stop) ∧
      ∀ token ∈ late, stop ≤ token.start := by
  have order := program_pairwise source
  have wide : ∀ token ∈ early ++ inner ++ late, token.start < token.stop := fun token member =>
    wide_of_program (excerpt.split ▸ member)
  rw [excerpt.split, List.append_assoc] at order
  obtain ⟨before, behind, _⟩ := List.pairwise_append.1 order
  obtain ⟨inside, after, _⟩ := List.pairwise_append.1 behind
  have wide' : ∀ token ∈ inner, token.start < token.stop := fun token member => wide token (by simp [member])
  refine ⟨stop_le_of_getLast? before (fun token member => wide token (by simp [member])) excerpt.lower,
    fun token member => ?_, le_start_of_head? after (fun token member => wide token (by simp [member])) excerpt.upper⟩
  exact ⟨le_start_of_head? inside wide' excerpt.first token member,
    stop_le_of_getLast? inside wide' excerpt.last token member⟩

theorem Excerpt.filter (excerpt : Excerpt source start stop early inner late) :
    ((between source start stop).map symbol).filter Symbol.isProgram = inner.map symbol :=
  filter_between excerpt.split excerpt.bounds.1 excerpt.bounds.2.1 excerpt.bounds.2.2

theorem Excerpt.mem (excerpt : Excerpt source start stop early inner late) (member : token ∈ inner) :
    token ∈ program source := by
  rw [excerpt.split]
  simp [member]

/-- Nothing in an excerpt is out of place. -/
theorem Excerpt.sound (excerpt : Excerpt source start stop early inner late) (sound : ∀ token ∈ inner, token.kind ≠ .bad) :
    ∀ found ∈ (between source start stop).map symbol, found.kind ≠ .bad := by
  intro found member bad
  have kept : found ∈ inner.map symbol := by
    rw [← excerpt.filter]
    exact List.mem_filter.2 ⟨member, by simp [Symbol.isProgram, bad]⟩
  obtain ⟨token, listed, rfl⟩ := List.mem_map.1 kept
  exact sound token listed bad

/-- Behind an offset where a comma or a parenthesis is next, nothing goes on. -/
theorem stopped_of_next (whole : Whole source start) (behind : ∃ token ∈ list source, token.start ≤ start)
    (cut : Text.Cut source start before rest)
    (next : ∀ token ∈ program source, token.start = start → token.isMark "," = true ∨ token.isMark ")" = true) :
    Stopped rest := by
  cases rest with
  | nil => exact stopped_nil
  | cons c rest =>
      rw [stopped_cons]
      by_cases space : isSpace c = true
      · exact mem_stopChars_of_isSpace space
      obtain ⟨early, newLine, split, _⟩ := exists_listFrom whole behind cut
      rw [listFrom, if_neg space] at split
      have listed : (⟨(after c rest).1, String.ofList (c :: rest.take (after c rest).2), start, start +
          Text.byteCount (c :: rest.take (after c rest).2), newLine⟩ : Token) ∈ list source := by
        rw [split]
        exact List.mem_append_right _ List.mem_cons_self
      by_cases comment : (after c rest).1 = .comment
      · rw [slash_of_comment comment]
        decide
      have member := mem_program.2 ⟨listed, by simp [symbol, Symbol.isProgram, comment, kind_after_ne_eof]⟩
      have same : ∀ d : Char, String.singleton d = String.ofList (c :: rest.take (after c rest).2) → c = d := by
        intro d text
        have chars := congrArg String.toList text
        rw [String.toList_ofList, String.toList_singleton] at chars
        exact (List.cons.inj chars).1.symm
      rcases next _ member rfl with comma | closing
      · rw [isMark, Bool.and_eq_true, beq_iff_eq, beq_iff_eq] at comma
        rw [same ',' comma.2.symm]
        decide
      · rw [isMark, Bool.and_eq_true, beq_iff_eq, beq_iff_eq] at closing
        rw [same ')' closing.2.symm]
        decide

variable {opening closing : Token} {symbols : List Symbol}

/-- A mark of a list is read alike before every text. -/
theorem scans_listMark {c : Char} (is : c ∈ ['(', ')', ',']) (rest : List Char) :
    Scans [c] [⟨.mark, String.singleton c⟩] rest := by
  have solid : ∀ c ∈ ['(', ')', ','], isSpace c = false := List.all_iff_forall_prop.1 (by decide)
  exact .lexeme (solid c is) (after_listMark is _) (Nat.zero_le _) (.nil _)

theorem apart_of_split (split : program source = early ++ late) : ∀ a ∈ early, ∀ b ∈ late, a.stop ≤ b.start := by
  have order := program_pairwise source
  rw [split] at order
  exact (List.pairwise_append.1 order).2.2

/-- An excerpt without its last token. -/
theorem Excerpt.init (excerpt : Excerpt source start stop early (inner ++ [token]) late) :
    Excerpt source start token.start early inner (token :: late) where
  split := by rw [excerpt.split]; simp
  lower := excerpt.lower
  first other member := excerpt.first other (by
    cases inner with
    | nil => cases member
    | cons => exact member)
  last other member := by
    have split : program source = (early ++ inner) ++ (token :: late) := by rw [excerpt.split]; simp
    exact apart_of_split split other (List.mem_append_right _ (List.mem_of_getLast? member)) token List.mem_cons_self
  upper other member := by
    cases member
    exact Nat.le_refl _

/-- An excerpt that ends with a mark of a list reads alike before every text. -/
theorem Excerpt.scans_mark {c : Char} {mark : Token} (is : c ∈ ['(', ')', ','])
    (excerpt : Excerpt source start mark.stop early (inner ++ [mark]) late)
    (marks : mark.isMark (String.singleton c) = true) (sound : ∀ token ∈ inner ++ [mark], token.kind ≠ .bad)
    (whole : Whole source start) (behind : ∃ token ∈ list source, token.start ≤ start)
    (cut : Text.Cut source start before (cs ++ rest)) (size : start + Text.byteCount cs = mark.stop) :
    ∃ found, (∀ rest', Scans cs found rest') ∧ found.filter Symbol.isProgram = (inner ++ [mark]).map symbol := by
  have last : mark ∈ inner ++ [mark] := by simp
  have listed := (mem_program.1 (excerpt.mem last)).1
  have init := excerpt.init
  obtain ⟨⟨before', others, cut'⟩, stop⟩ := cut_of_isMark listed marks
  obtain ⟨front, rfl, split⟩ := cut.exists_between cut' (excerpt.bounds.2.1 mark last).1
  have behind' : Text.Cut source mark.stop (before ++ front ++ [c]) others := by
    have further : Text.Cut source (mark.start + Text.byteCount [c]) (before ++ front ++ [c]) others := cut'.step
    rwa [Text.byteCount_cons, Text.byteCount_nil, Nat.add_zero, ← stop] at further
  have further := size ▸ cut.step
  obtain rfl := behind'.after_eq further
  obtain rfl : cs = front ++ [c] := List.append_cancel_right (split.trans (List.append_assoc front [c] others).symm)
  rw [List.append_assoc] at cut
  have offsets : start + Text.byteCount front = mark.start := by
    rw [← cut.size, ← Text.byteCount_append, cut'.size]
  have scans := scans_between whole (whole_of_mem listed).1 behind cut offsets
  have stops : ∀ c ∈ ['(', ')', ','], c ∈ stopChars ∧ c ≠ '\n' ∧ c ≠ '/' :=
    List.all_iff_forall_prop.1 (by decide)
  obtain ⟨stop, line, slash⟩ := stops c is
  have stopped : ∀ rest : List Char, Stopped (c :: rest) := fun rest => stopped_cons.2 stop
  have fine := init.sound fun token member => sound token (List.mem_append_left _ member)
  refine ⟨(between source start mark.start).map symbol ++ [⟨.mark, String.singleton c⟩], fun rest' => ?_, ?_⟩
  · have front := scans.before (stopped _) (stopped rest') fine fun symbol _ =>
      ⟨fun _ => ⟨by simp, by simp [line]⟩, fun _ => by simp [slash]⟩
    exact front.append (scans_listMark is rest')
  · rw [List.filter_append, init.filter, List.map_append, List.map_singleton, symbol_of_isMark marks]
    rfl

/-- Nothing but white space and comments stands between two neighbours of a program. -/
theorem Excerpt.scans_gap (excerpt : Excerpt source start token.start early [] late) (listed : token ∈ program source)
    (whole : Whole source start) (behind : ∃ token ∈ list source, token.start ≤ start)
    (cut : Text.Cut source start before (cs ++ rest)) (size : start + Text.byteCount cs = token.start) :
    ∃ found, (∀ rest', Scans cs found rest') ∧ found.filter Symbol.isProgram = [] := by
  have scans := scans_between whole (whole_of_mem (mem_program.1 listed).1).1 behind cut size
  have none := excerpt.filter
  rw [List.map_nil] at none
  obtain ⟨before', c, others, cut', solid, _⟩ := list_isRead (mem_program.1 listed).1 (wide_of_program listed)
  have further := size ▸ cut.step
  obtain rfl := cut'.after_eq further
  refine ⟨_, scans.gap solid fun found member => ?_, none⟩
  have foreign := List.filter_eq_nil_iff.1 none found member
  simpa [Symbol.isProgram, scans.kind_ne_eof found member] using foreign

/-- An excerpt up to the end of a token reads alike before every stop. -/
theorem Excerpt.scans_last {rest' : List Char} (excerpt : Excerpt source start token.stop early inner late)
    (last : inner.getLast? = some token) (sound : ∀ token ∈ inner, token.kind ≠ .bad) (whole : Whole source start)
    (behind : ∃ token ∈ list source, token.start ≤ start) (cut : Text.Cut source start before (cs ++ rest))
    (size : start + Text.byteCount cs = token.stop) (stopped : Stopped rest) (stopped' : Stopped rest')
    (slash : rest'.head? ≠ some '/') : Scans cs ((between source start token.stop).map symbol) rest' := by
  have member : token ∈ inner := List.mem_of_getLast? last
  obtain ⟨listed, kept⟩ := mem_program.1 (excerpt.mem member)
  have lower := (excerpt.bounds.2.1 token member).1
  have scans := scans_between whole (whole_of_mem listed).2 behind cut size
  refine scans.before stopped stopped' (excerpt.sound sound) fun found member' => ⟨fun comment => ?_, fun _ => slash⟩
  rw [List.getLast?_map, getLast?_between listed lower (wide_of_program (excerpt.mem member))] at member'
  cases member'
  rw [Symbol.isProgram, comment] at kept
  cases kept

/-- An excerpt by itself, where nothing goes on behind it. -/
theorem Excerpt.ofText (excerpt : Excerpt source start token.stop early inner late)
    (last : inner.getLast? = some token) (sound : ∀ token ∈ inner, token.kind ≠ .bad) (whole : Whole source start)
    (behind : ∃ token ∈ list source, token.start ≤ start) (cut : Text.Cut source start before (cs ++ rest))
    (size : start + Text.byteCount cs = token.stop) (stopped : Stopped rest) :
    Symbol.ofText (String.ofList cs) = inner.map symbol := by
  have scans := excerpt.scans_last last sound whole behind cut size stopped stopped_nil (by simp)
  rw [Symbol.ofText, String.toList_ofList, ← List.append_nil cs, scans.symbols_eq, List.filter_append, excerpt.filter,
    Symbol.filter_nil, List.append_nil]

/-! Lists in parentheses, cut in two. -/

variable {front back : List Token} {opening closing : Token} {offset : Nat} {afore aft inserted : List Char}
  {text : String}

/-- Tokens of a list in parentheses, on two sides of an offset. -/
structure Halves (source : String) (early front back late : List Token) (opening closing : Token) (offset : Nat) :
    Prop where
  split : program source = early ++ (front ++ back) ++ late
  opens : front.head? = some opening ∧ opening.isMark "(" = true
  closes : back.getLast? = some closing ∧ closing.isMark ")" = true
  sound : ∀ token ∈ front ++ back, token.kind ≠ .bad
  whole : Whole source offset
  lower : ∀ token ∈ front.getLast?, token.stop ≤ offset
  upper : ∀ token ∈ back.head?, offset ≤ token.start

namespace Halves

variable (halves : Halves source early front back late opening closing offset)
include halves

theorem listed (member : token ∈ front ++ back) : token ∈ program source := by
  rw [halves.split]
  exact List.mem_append_left _ (List.mem_append_right _ member)

theorem listed_opening : opening ∈ program source :=
  halves.listed (List.mem_append_left _ (List.mem_of_mem_head? halves.opens.1))

theorem listed_closing : closing ∈ program source :=
  halves.listed (List.mem_append_right _ (List.mem_of_getLast? halves.closes.1))

theorem front_excerpt : Excerpt source opening.start offset early front (back ++ late) where
  split := by rw [halves.split]; simp
  lower token member := by
    have split : program source = early ++ (front ++ back ++ late) := by rw [halves.split]; simp
    exact apart_of_split split token (List.mem_of_getLast? member) opening (by
      simp [List.mem_of_mem_head? halves.opens.1])
  first token member := by
    cases halves.opens.1.symm.trans member
    exact Nat.le_refl _
  last := halves.lower
  upper token member := halves.upper token (by
    cases whole : back with
    | nil =>
        have closes := halves.closes.1
        rw [whole] at closes
        cases closes
    | cons => rwa [whole] at member)

theorem back_excerpt : Excerpt source offset closing.stop (early ++ front) back late where
  split := by rw [halves.split]; simp
  lower token member := halves.lower token (by
    cases whole : front with
    | nil =>
        have opens := halves.opens.1
        rw [whole] at opens
        cases opens
    | cons => simpa [whole, List.getLast?_append] using member)
  first := halves.upper
  last token member := by
    cases halves.closes.1.symm.trans member
    exact Nat.le_refl _
  upper token member := by
    have split : program source = (early ++ (front ++ back)) ++ late := halves.split
    exact apart_of_split split closing (by simp [List.mem_of_getLast? halves.closes.1]) token (List.mem_of_mem_head? member)

theorem behind_opening : ∃ token ∈ list source, token.start ≤ opening.start :=
  ⟨opening, (mem_program.1 halves.listed_opening).1, Nat.le_refl _⟩

theorem behind_offset : ∃ token ∈ list source, token.start ≤ offset := by
  have bounds := halves.front_excerpt.bounds.2.1 opening (List.mem_of_mem_head? halves.opens.1)
  have size := wide_of_program halves.listed_opening
  exact ⟨opening, (mem_program.1 halves.listed_opening).1, by omega⟩

/-- The back of a list reads alike with nothing behind it. -/
theorem scans_back (cut : Text.Cut source offset before (aft ++ rest))
    (size : offset + Text.byteCount aft = closing.stop) :
    ∃ found, Scans aft found [] ∧ found.filter Symbol.isProgram = back.map symbol := by
  obtain ⟨inner, last, split⟩ : ∃ inner last, back = inner ++ [last] := by
    rcases List.eq_nil_or_concat back with none | ⟨inner, last, split⟩
    · have closes := halves.closes.1
      rw [none] at closes
      cases closes
    · exact ⟨inner, last, by rw [split, List.concat_eq_append]⟩
  have closes := halves.closes
  rw [split, List.getLast?_concat, Option.some.injEq] at closes
  obtain ⟨rfl, mark⟩ := closes
  have excerpt := halves.back_excerpt
  rw [split] at excerpt
  have single : last.isMark (String.singleton ')') = true := mark
  obtain ⟨found, scans, kept⟩ := excerpt.scans_mark (by decide) single (fun token member =>
    halves.sound token (List.mem_append_right _ (split ▸ member))) halves.whole halves.behind_offset cut size
  exact ⟨found, scans [], split ▸ kept⟩

/-- Where the back of a list begins with a mark, nothing goes on. -/
theorem stopped_back (next : ∀ token ∈ back.head?, token.isMark "," = true ∨ token.isMark ")" = true)
    (cut : Text.Cut source offset before rest) : Stopped rest := by
  refine stopped_of_next halves.whole halves.behind_offset cut fun token member start => ?_
  have split : program source = (early ++ front) ++ (back ++ late) := by rw [halves.split]; simp
  have size := wide_of_program member
  rw [split] at member
  rcases List.mem_append.1 member with before | behind
  · have bound := halves.back_excerpt.bounds.1 token before
    omega
  · cases whole : back with
    | nil =>
        have closes := halves.closes.1
        rw [whole] at closes
        cases closes
    | cons first others =>
        rw [whole] at next behind
        rcases List.mem_cons.1 behind with rfl | later
        · exact next _ rfl
        · have lower := halves.upper first (by rw [whole]; rfl)
          have behind : first.stop ≤ token.start := by
            rw [whole] at split
            have split' : program source = (early ++ front ++ [first]) ++ (others ++ late) := by rw [split]; simp
            exact apart_of_split split' first (by simp) token later
          have size := wide_of_program (halves.listed (List.mem_append_right _ (whole ▸ List.mem_cons_self)))
          omega

/-- The front of a list up to the end of one of its tokens. -/
theorem scans_front_behind (last : ∀ token ∈ front.getLast?, token.stop = offset)
    (next : ∀ token ∈ back.head?, token.isMark "," = true ∨ token.isMark ")" = true)
    (cut : Text.Cut source opening.start before (afore ++ rest))
    (size : opening.start + Text.byteCount afore = offset) :
    ∃ found, (∀ rest', Stopped rest' → rest'.head? ≠ some '/' → Scans afore found rest') ∧
      found.filter Symbol.isProgram = front.map symbol := by
  have filled := List.ne_nil_of_mem (List.mem_of_mem_head? halves.opens.1)
  obtain ⟨token, final⟩ : ∃ token, front.getLast? = some token := ⟨_, List.getLast?_eq_some_getLast filled⟩
  obtain rfl := last token final
  have excerpt := halves.front_excerpt
  refine ⟨_, fun rest' stopped' slash => ?_, excerpt.filter⟩
  exact excerpt.scans_last final (fun token member => halves.sound token (List.mem_append_left _ member))
    (whole_of_mem (mem_program.1 halves.listed_opening).1).1 halves.behind_opening cut size
    (halves.stopped_back next (size ▸ cut.step)) stopped' slash

/-- The front of a list that is only its parenthesis. -/
theorem scans_opening (alone : front = [opening]) (reach : opening.stop = offset)
    (cut : Text.Cut source opening.start before (afore ++ rest))
    (size : opening.start + Text.byteCount afore = offset) :
    ∃ found, (∀ rest', Scans afore found rest') ∧ found.filter Symbol.isProgram = front.map symbol := by
  have excerpt := halves.front_excerpt
  subst alone reach
  have single : opening.isMark (String.singleton '(') = true := halves.opens.2
  have excerpt' : Excerpt source opening.start opening.stop early ([] ++ [opening]) (back ++ late) := excerpt
  exact excerpt'.scans_mark (by decide) single (fun token member => halves.sound token (List.mem_append_left _ member))
    (whole_of_mem (mem_program.1 halves.listed_opening).1).1 halves.behind_opening cut size

/-- The front of a list up to the beginning of a token behind a mark. -/
theorem scans_front_before {c : Char} {inner : List Token} {mark token : Token} (is : c ∈ ['(', ')', ','])
    (split : front = inner ++ [mark]) (marks : mark.isMark (String.singleton c) = true)
    (first : back.head? = some token) (starts : token.start = offset)
    (cut : Text.Cut source opening.start before (afore ++ rest))
    (size : opening.start + Text.byteCount afore = offset) :
    ∃ found, (∀ rest', Scans afore found rest') ∧ found.filter Symbol.isProgram = front.map symbol := by
  subst split starts
  have member : mark ∈ (inner ++ [mark]) ++ back := by simp
  have listed := (mem_program.1 (halves.listed member)).1
  have lower : mark.stop ≤ token.start := halves.lower mark (by simp)
  have upper : ∀ other ∈ (back ++ late).head?, other = token := by
    intro other found
    rw [List.head?_append, first] at found
    exact (Option.some.inj found).symm
  -- the mark ends the first part, and the rest of the front is a gap
  obtain ⟨before', others, cut'⟩ := Text.isBoundary_iff.1 (whole_of_mem listed).2.boundary
  have excerpt : Excerpt source opening.start mark.stop early (inner ++ [mark]) (back ++ late) :=
    { halves.front_excerpt with
      last := fun other found => by
        cases (List.getLast?_concat).symm.trans found
        exact Nat.le_refl _
      upper := fun other found => upper other found ▸ lower }
  have gap : Excerpt source mark.stop token.start (early ++ (inner ++ [mark])) [] (back ++ late) :=
    { split := by rw [halves.split]; simp
      lower := fun other found => by
        rw [← List.append_assoc] at found
        cases (List.getLast?_concat).symm.trans found
        exact Nat.le_refl _
      first := fun other found => by cases found
      last := fun other found => by cases found
      upper := fun other found => upper other found ▸ Nat.le_refl _ }
  have order := (excerpt.bounds.2.1 mark (by simp)).1
  have wide := wide_of_program (halves.listed member)
  obtain ⟨passage, rfl, same⟩ := cut.exists_between cut' (by omega)
  have further := size ▸ cut.step
  obtain ⟨blank, same', rfl⟩ := cut'.exists_between further lower
  rw [List.append_assoc, List.append_cancel_left_eq] at same'
  subst same'
  rw [List.append_assoc] at cut
  have reach : opening.start + Text.byteCount passage = mark.stop := by
    rw [← cut.size, ← Text.byteCount_append, cut'.size]
  have reach' : mark.stop + Text.byteCount blank = token.start := by
    rw [← reach, ← size, Text.byteCount_append, Nat.add_assoc]
  obtain ⟨found, scans, kept⟩ := excerpt.scans_mark is marks
    (fun other found => halves.sound other (List.mem_append_left _ found))
    (whole_of_mem (mem_program.1 halves.listed_opening).1).1 halves.behind_opening cut reach
  obtain ⟨found', scans', none⟩ := gap.scans_gap
    (halves.listed (List.mem_append_right _ (List.mem_of_mem_head? first))) (whole_of_mem listed).2
    ⟨mark, listed, Nat.le_of_lt wide⟩ cut' reach'
  refine ⟨found ++ found', fun rest' => (scans _).append (scans' rest'), ?_⟩
  rw [List.filter_append, kept, none, List.append_nil]

omit halves in
theorem ofText_join {symbols symbols' symbols'' : List Symbol} (first : Scans afore symbols (inserted ++ aft))
    (second : Scans inserted symbols' aft) (third : Scans aft symbols'' []) :
    Symbol.ofText (String.ofList (afore ++ inserted ++ aft)) =
      (symbols.filter Symbol.isProgram ++ symbols'.filter Symbol.isProgram) ++ symbols''.filter Symbol.isProgram := by
  have ended : Scans (inserted ++ aft) (symbols' ++ symbols'') [] := by
    refine Scans.append ?_ third
    rwa [List.append_nil]
  have scans : Scans (afore ++ (inserted ++ aft)) (symbols ++ (symbols' ++ symbols'')) [] := by
    refine Scans.append ?_ ended
    rwa [List.append_nil]
  have all := scans.symbols_eq
  rw [List.append_nil] at all
  rw [Symbol.ofText, String.toList_ofList, List.append_assoc, all, List.filter_append, Symbol.filter_nil, List.append_nil,
    List.filter_append, List.filter_append, List.append_assoc]

omit halves in
theorem scans_comma (rest : List Char) : Scans ", ".toList [⟨.mark, ","⟩] rest :=
  (scans_listMark (by decide) (' ' :: rest)).append (.space (by decide) (.nil rest))

/-- A phrase with a comma behind it, before one of the tokens. -/
theorem ofText_before {c : Char} {inner : List Token} {mark token : Token} (is : c ∈ ['(', ')', ','])
    (split : front = inner ++ [mark]) (marks : mark.isMark (String.singleton c) = true)
    (first : back.head? = some token) (starts : token.start = offset) (phrase : IsPhrase text)
    (cut : Text.Cut source opening.start before (afore ++ (aft ++ rest)))
    (size : opening.start + Text.byteCount afore = offset) (size' : offset + Text.byteCount aft = closing.stop) :
    Symbol.ofText (String.ofList (afore ++ (text ++ ", ").toList ++ aft)) =
      (front.map symbol ++ (Symbol.ofText text ++ [⟨.mark, ","⟩])) ++ back.map symbol := by
  obtain ⟨found, scans, kept⟩ := halves.scans_front_before is split marks first starts cut size
  obtain ⟨found', scans', kept'⟩ := halves.scans_back (size ▸ cut.step) size'
  have stopped : Stopped (", ".toList ++ aft) := stopped_cons.2 (by decide)
  have inserted := (phrase.scans stopped).append (scans_comma aft)
  rw [← String.toList_append] at inserted
  rw [ofText_join (scans _) inserted scans', kept, kept', List.filter_append, Symbol.filter_ofText]
  rfl

theorem stopped_aft (next : ∀ token ∈ back.head?, token.isMark "," = true ∨ token.isMark ")" = true)
    (cut : Text.Cut source offset before (aft ++ rest)) : Stopped aft := by
  have stopped := halves.stopped_back next cut
  cases aft with
  | nil => exact stopped_nil
  | cons c aft => exact stopped

/-- A phrase with a comma before it, behind one of the tokens. -/
theorem ofText_behind (last : ∀ token ∈ front.getLast?, token.stop = offset)
    (next : ∀ token ∈ back.head?, token.isMark "," = true ∨ token.isMark ")" = true) (phrase : IsPhrase text)
    (cut : Text.Cut source opening.start before (afore ++ (aft ++ rest)))
    (size : opening.start + Text.byteCount afore = offset) (size' : offset + Text.byteCount aft = closing.stop) :
    Symbol.ofText (String.ofList (afore ++ (", " ++ text).toList ++ aft)) =
      (front.map symbol ++ ([⟨.mark, ","⟩] ++ Symbol.ofText text)) ++ back.map symbol := by
  have behind : Text.Cut source offset (before ++ afore) (aft ++ rest) := size ▸ cut.step
  obtain ⟨found, scans, kept⟩ := halves.scans_front_behind last next cut size
  obtain ⟨found', scans', kept'⟩ := halves.scans_back behind size'
  have inserted := (scans_comma (text.toList ++ aft)).append (phrase.scans (halves.stopped_aft next behind))
  rw [← String.toList_append] at inserted
  have stopped : Stopped ((", " ++ text).toList ++ aft) := by
    rw [String.toList_append]
    exact stopped_cons.2 (by decide)
  have first := scans _ stopped (by rw [String.toList_append]; exact fun same => by cases same)
  rw [ofText_join first inserted scans', kept, kept', List.filter_append, Symbol.filter_ofText]
  rfl

/-- A phrase in a list that has no other. -/
theorem ofText_inside (alone : front = [opening]) (reach : opening.stop = offset)
    (next : ∀ token ∈ back.head?, token.isMark "," = true ∨ token.isMark ")" = true) (phrase : IsPhrase text)
    (cut : Text.Cut source opening.start before (afore ++ (aft ++ rest)))
    (size : opening.start + Text.byteCount afore = offset) (size' : offset + Text.byteCount aft = closing.stop) :
    Symbol.ofText (String.ofList (afore ++ text.toList ++ aft)) =
      (front.map symbol ++ Symbol.ofText text) ++ back.map symbol := by
  have behind : Text.Cut source offset (before ++ afore) (aft ++ rest) := size ▸ cut.step
  obtain ⟨found, scans, kept⟩ := halves.scans_opening alone reach cut size
  obtain ⟨found', scans', kept'⟩ := halves.scans_back behind size'
  have inserted := phrase.scans (halves.stopped_aft next behind)
  rw [ofText_join (scans _) inserted scans', kept, kept', Symbol.filter_ofText]

/-- The list as it stands. -/
theorem ofText_whole (alone : front = [opening]) (reach : opening.stop = offset)
    (cut : Text.Cut source opening.start before (afore ++ (aft ++ rest)))
    (size : opening.start + Text.byteCount afore = offset) (size' : offset + Text.byteCount aft = closing.stop) :
    Symbol.ofText (String.ofList (afore ++ aft)) = front.map symbol ++ back.map symbol := by
  obtain ⟨found, scans, kept⟩ := halves.scans_opening alone reach cut size
  obtain ⟨found', scans', kept'⟩ := halves.scans_back (size ▸ cut.step) size'
  have joined := ofText_join (scans ([] ++ aft)) (.nil aft) scans'
  rwa [List.append_nil, kept, kept', List.filter_nil, List.append_nil] at joined

end Halves

end Token

end TraceWeave.Go
