import Mathlib.Data.List.TakeWhile
import TraceWeave.Proofs.Go.LexicalPhrases
import TraceWeave.Proofs.Ink

/-!
Tokens and the characters around them. Every character that is no space belongs to a token, so what
follows a token up to the end of its line, when it looks like a comment, is one; no word and no bracket
begins there.
-/
namespace TraceWeave

namespace Text

variable {source : String} {offset : Nat} {before rest : List Char} {c : Char}

/-- The white space there is, by number. -/
def blanks : List Nat :=
  [9, 10, 11, 12, 13, 0x20, 0x85, 0xa0, 0x1680, 0x2000, 0x2001, 0x2002, 0x2003, 0x2004, 0x2005, 0x2006, 0x2007,
    0x2008, 0x2009, 0x200a, 0x2028, 0x2029, 0x202f, 0x205f, 0x3000]

theorem mem_blanks (blank : isBlank c = true) : c.toNat ∈ blanks := by
  simp only [isBlank, Bool.or_eq_true, Bool.and_eq_true, decide_eq_true_eq, beq_iff_eq] at blank
  simp only [blanks, List.mem_cons, List.not_mem_nil, or_false]
  omega

theorem startsWord_of_isBlank (blank : isBlank c = true) : startsWord c = false := by
  have all : ∀ n ∈ blanks, startsWord (Char.ofNat n) = false := by decide +kernel
  rw [← Char.ofNat_toNat c]
  exact all _ (mem_blanks blank)

/-- A character of a passage, and where it ends. -/
theorem Cut.mem_of_inside {passage others before' : List Char} {position : Nat}
    (cut : Cut source offset before (passage ++ others)) (cut' : Cut source position before' (c :: rest))
    (later : offset ≤ position) (inside : position < offset + byteCount passage) :
    c ∈ passage ∧ position + c.utf8Size ≤ offset + byteCount passage := by
  obtain ⟨between, rfl, same⟩ := cut.exists_between cut' later
  have bytes := cut'.size
  rw [byteCount_append, cut.size] at bytes
  rcases List.append_eq_append_iff.1 same with ⟨more, rfl, _⟩ | ⟨more, rfl, same'⟩
  · rw [byteCount_append] at bytes
    omega
  · cases more with
    | nil =>
        rw [List.append_nil] at inside
        omega
    | cons d more =>
        cases same'
        rw [byteCount_append, byteCount_cons]
        exact ⟨by simp, by omega⟩

theorem Cut.after_eq {after before' after' : List Char} (cut : Cut source offset before after)
    (cut' : Cut source offset before' after') : after = after' := by
  obtain ⟨between, rfl, rfl⟩ := cut.exists_between cut' (Nat.le_refl _)
  have bytes := cut'.size
  rw [byteCount_append, cut.size] at bytes
  cases between with
  | nil => rfl
  | cons d between =>
      have room := d.utf8Size_pos
      rw [byteCount_cons] at bytes
      omega

/-- A character that shows, before an offset on whose line nothing else shows before it, is on an
earlier line. -/
theorem lt_lineStart {position : Nat} (cut : Cut source offset before (c :: rest)) (shows : isBlank c = false)
    (sound : isBoundary source position = true) (starts : startsLine source position = true)
    (earlier : offset < position) : offset < lineStart source position := by
  by_contra late
  obtain ⟨upTo, rest', cut'⟩ := isBoundary_iff.1 (isBoundary_lineStart sound)
  obtain ⟨upTo', rest'', cut''⟩ := isBoundary_iff.1 sound
  obtain ⟨gap, rfl, same⟩ := cut'.exists_between cut (by omega)
  have order : lineStart source position ≤ position := by rw [lineStart]; exact Nat.sub_le _ _
  obtain ⟨line, rfl, rfl⟩ := cut'.exists_between cut'' order
  obtain ⟨more, found, _⟩ := cut.exists_between cut'' (by omega)
  rw [startsLine, isAllBlank, cut'.slice_eq cut'', String.toList_ofList, List.all_eq_true] at starts
  -- the character is one of those between the start of the line and the offset
  have inside : c ∈ line := by
    have longer : line = gap ++ more := by
      rw [List.append_assoc] at found
      exact List.append_cancel_left found
    cases more with
    | nil =>
        have bytes := cut''.size
        rw [found, List.append_nil, cut.size] at bytes
        omega
    | cons d more =>
        rw [longer, List.append_assoc] at same
        have tail := List.append_cancel_left same
        rw [List.cons_append] at tail
        rw [longer, (List.cons.inj tail).1]
        simp
  rw [starts c inside] at shows
  cases shows

/-- What stands on the rest of a line without code: white space, and maybe a comment up to its end. -/
theorem exists_of_restIsTrivia {after : List Char} (cut : Cut source offset before after)
    (trivia : restIsTrivia source offset = true) :
    ∃ gap core, after.takeWhile (· != '\n') = gap ++ core ∧ (∀ c ∈ gap, isBlank c = true) ∧
      (core = [] ∨ ∃ more, core = '/' :: '/' :: more) := by
  have parts : Cut source offset before (after.takeWhile (· != '\n') ++ after.dropWhile (· != '\n')) := by
    rwa [List.takeWhile_append_dropWhile]
  have line : slice source offset (lineEnd source offset) = String.ofList (after.takeWhile (· != '\n')) := by
    rw [lineEnd_eq cut]
    exact parts.slice_eq parts.step
  generalize after.takeWhile (· != '\n') = chars at line
  unfold restIsTrivia trim dropEnd dropStart at trivia
  rw [line, String.toList_ofList, String.toList_ofList, String.toList_ofList] at trivia
  have front := List.takeWhile_append_dropWhile (p := isBlank) (l := chars)
  split at trivia
  · rename_i nothing
    rw [List.reverse_eq_nil_iff, List.dropWhile_eq_nil_iff] at nothing
    refine ⟨chars, [], (List.append_nil _).symm, fun c member => ?_, .inl rfl⟩
    rw [← front] at member
    rcases List.mem_append.1 member with early | late
    · exact List.mem_takeWhile_imp early
    · exact nothing c (List.mem_reverse.2 late)
  · rename_i more slashes
    refine ⟨chars.takeWhile isBlank, chars.dropWhile isBlank, front.symm, fun c => List.mem_takeWhile_imp, .inr ?_⟩
    -- white space at the end does not change how the rest begins
    generalize chars.dropWhile isBlank = core at slashes
    have same : core = (core.reverse.dropWhile isBlank).reverse ++ (core.reverse.takeWhile isBlank).reverse := by
      rw [← List.reverse_append, List.takeWhile_append_dropWhile, List.reverse_reverse]
    rw [slashes] at same
    exact ⟨_, same⟩
  · cases trivia

end Text

namespace Go

namespace Lexeme

variable {c : Char} {rest : List Char}

theorem ne_of_high (high : 128 ≤ c.toNat) {d : Char} (low : d.toNat < 128) : c ≠ d := by
  rintro rfl
  omega

theorem mark_of_high (high : 128 ≤ c.toNat) : mark (c :: rest) = 0 := by
  have low : ∀ text ∈ marks, text.toList.head?.any (fun d => decide (d.toNat < 128)) = true := by decide
  have none : marks.find? (fun text => text.toList.isPrefixOf (c :: rest)) = none := by
    rw [List.find?_eq_none]
    intro text member
    have first := low text member
    cases chars : text.toList with
    | nil =>
        rw [chars] at first
        cases first
    | cons d ds =>
        rw [chars] at first
        simp only [List.isPrefixOf_cons_cons, Bool.and_eq_true, beq_iff_eq, not_and, Bool.not_eq_true]
        intro same
        exact absurd same.symm (ne_of_high high (by simpa using first))
  rw [mark, none]

theorem number_of_high (high : 128 ≤ c.toNat) : (number (c :: rest)).2 = 0 := by
  have zero : c ≠ '0' := ne_of_high high (by decide)
  have dot : c ≠ '.' := ne_of_high high (by decide)
  have letter : c ≠ 'i' := ne_of_high high (by decide)
  have run : digits Char.isDigit (c :: rest) = 0 := by
    rw [digits, if_neg]
    intro digit
    have bounds := (Bool.and_eq_true_iff.1 digit).2
    have low : c.toNat ≤ 57 := of_decide_eq_true bounds
    omega
  have whole : int (c :: rest) = 0 := by simp [int, run, zero]
  have float : decimalFloat (c :: rest) = 0 := by simp [decimalFloat, run, dot]
  have hex : hexFloat (c :: rest) = 0 := by simp [hexFloat, zero]
  simp [number, whole, float, hex, run, letter]

/-- White space that is no space is not part of any lexeme. -/
theorem after_of_isBlank (blank : Text.isBlank c = true) (solid : isSpace c = false) : after c rest = (.bad, 0) := by
  have high : 128 ≤ c.toNat := by
    simp only [Text.isBlank, Bool.or_eq_true, Bool.and_eq_true, decide_eq_true_eq, beq_iff_eq] at blank
    simp only [isSpace, Bool.or_eq_false_iff, Bool.and_eq_false_iff, decide_eq_false_iff_not, beq_eq_false_iff_ne] at solid
    have space : c.toNat ≠ 0x20 := fun same => solid.1 (by rw [← Char.ofNat_toNat c, same])
    omega
  have slash : c ≠ '/' := ne_of_high high (by decide)
  have quotes : c ≠ quotation ∧ c ≠ backQuote ∧ c ≠ apostrophe :=
    ⟨ne_of_high high (by decide), ne_of_high high (by decide), ne_of_high high (by decide)⟩
  simp [after, Text.startsWord_of_isBlank blank, quotes, slash, number_of_high high, mark_of_high high]

/-- A comment up to the end of the line. -/
theorem after_slashes (more : List Char) :
    after '/' ('/' :: more) = (.comment, 1 + (more.takeWhile (· != '\n')).length) := by
  have apart : Text.startsWord '/' = false := by decide +kernel
  have quotes : '/' ≠ quotation ∧ '/' ≠ backQuote ∧ '/' ≠ apostrophe := by decide
  simp [after, apart, quotes]

/-- Words begin with a letter. -/
theorem startsWord_of_after (word : (after c rest).1 = .word) : Text.startsWord c = true := by
  by_contra apart
  rw [Bool.not_eq_true] at apart
  unfold after at word
  simp only [apart, Bool.false_eq_true, if_false] at word
  split at word
  · split at word <;> cases word
  split at word
  · split at word <;> cases word
  split at word
  · split at word <;> cases word
  split at word
  · cases word
  · split at word <;> cases word
  · split at word
    · split at word <;> cases word
    · unfold number at word
      dsimp only at word
      split at word <;> split at word <;> cases word

end Lexeme

namespace Token

variable {source : String} {offset : Nat} {newLine : Bool} {before cs : List Char} {token : Token}

/-- A token is what the text reads as where it begins. -/
def IsRead (source : String) (token : Token) : Prop :=
  ∃ before c rest, Text.Cut source token.start before (c :: rest) ∧ Lexeme.isSpace c = false ∧
    token.kind = (Lexeme.after c rest).1 ∧ token.text = String.ofList (c :: rest.take (Lexeme.after c rest).2) ∧
    token.stop = token.start + Text.byteCount (c :: rest.take (Lexeme.after c rest).2)

theorem listFrom_isRead (cut : Text.Cut source offset before cs) (member : token ∈ listFrom offset newLine cs)
    (wide : token.start < token.stop) : IsRead source token := by
  fun_induction listFrom offset newLine cs generalizing before with
  | case1 offset newLine =>
      cases List.mem_singleton.1 member
      exact absurd wide (Nat.lt_irrefl _)
  | case2 offset newLine c rest space ih =>
      have further : Text.Cut source (offset + Text.byteCount [c]) (before ++ [c]) rest := cut.step
      exact ih further member
  | case3 offset newLine c rest space kind count found lexeme stop =>
      rename_i ih
      rcases List.mem_cons.1 member with rfl | later
      · exact ⟨before, c, rest, cut, Bool.not_eq_true _ ▸ space, by rw [found], by rw [found], by rw [found]⟩
      · have parts : Text.Cut source offset before (lexeme ++ rest.drop count) := by
          change Text.Cut source offset before (c :: (rest.take count ++ rest.drop count))
          rwa [List.take_append_drop]
        exact ih parts.step later

/-- A character that is no space belongs to a token. -/
theorem listFrom_covers (offset : Nat) (newLine : Bool) {passed rest : List Char} {c : Char} (split : cs = passed ++ c :: rest)
    (solid : Lexeme.isSpace c = false) :
    ∃ token ∈ listFrom offset newLine cs,
      token.start ≤ offset + Text.byteCount passed ∧ offset + Text.byteCount passed < token.stop := by
  fun_induction listFrom offset newLine cs generalizing passed with
  | case1 offset newLine =>
      exact absurd split.symm (by simp)
  | case2 offset newLine d others space ih =>
      cases passed with
      | nil =>
          cases split
          rw [space] at solid
          cases solid
      | cons first passed =>
          cases split
          obtain ⟨token, member, starts, stops⟩ := ih rfl
          rw [Text.byteCount_cons, ← Nat.add_assoc]
          exact ⟨token, member, starts, stops⟩
  | case3 offset newLine d others space kind count found lexeme stop =>
      rename_i ih
      have whole : lexeme ++ others.drop count = passed ++ c :: rest := by
        rw [← split]
        exact congrArg (d :: ·) (List.take_append_drop _ _)
      rcases List.append_eq_append_iff.1 whole with ⟨later, same, same'⟩ | ⟨inner, same, same'⟩
      · obtain ⟨token, member, starts, stops⟩ := ih same'
        rw [same, Text.byteCount_append, ← Nat.add_assoc]
        exact ⟨token, List.mem_cons_of_mem _ member, starts, stops⟩
      · cases inner with
        | nil =>
            rw [List.append_nil] at same
            have next : others.drop count = [] ++ c :: rest := same'.symm
            obtain ⟨token, member, starts, stops⟩ := ih next
            rw [← same]
            exact ⟨token, List.mem_cons_of_mem _ member, starts, stops⟩
        | cons first inner =>
            refine ⟨_, List.mem_cons_self, Nat.le_add_right _ _, ?_⟩
            have room := first.utf8Size_pos
            change offset + Text.byteCount passed < offset + Text.byteCount lexeme
            rw [same, Text.byteCount_append, Text.byteCount_cons]
            omega

theorem list_isRead (member : token ∈ list source) (wide : token.start < token.stop) : IsRead source token := by
  have start := Text.cut_start source
  unfold list at member
  split at member
  · rename_i c rest whole
    rw [whole] at start
    split at member
    · have further : Text.Cut source (0 + Text.byteCount [c]) ([] ++ [c]) rest := start.step
      rw [Nat.zero_add] at further
      exact listFrom_isRead further member wide
    · exact listFrom_isRead start member wide
  · rename_i whole
    rw [whole] at start
    exact listFrom_isRead start member wide

theorem list_covers {rest : List Char} {c : Char} (cut : Text.Cut source offset before (c :: rest))
    (solid : Lexeme.isSpace c = false) (visible : c.toNat ≠ 0xfeff) :
    ∃ token ∈ list source, token.start ≤ offset ∧ offset < token.stop := by
  unfold list
  split
  · rename_i first others whole
    have split := whole.symm.trans cut.whole
    split
    · rename_i mark
      cases before with
      | nil =>
          cases split
          exact absurd mark visible
      | cons other before =>
          cases split
          obtain ⟨token, member, starts, stops⟩ := listFrom_covers first.utf8Size false rfl solid
          rw [← cut.size, Text.byteCount_cons]
          exact ⟨token, member, starts, stops⟩
    · obtain ⟨token, member, starts, stops⟩ := listFrom_covers 0 false split solid
      rw [Nat.zero_add, cut.size] at starts stops
      exact ⟨token, member, starts, stops⟩
  · rename_i whole
    exact absurd (whole.symm.trans cut.whole).symm (by simp)

/-- An offset between two characters that lies inside no token. -/
structure Whole (source : String) (offset : Nat) : Prop where
  boundary : Text.isBoundary source offset = true
  outside : ∀ token ∈ list source, ¬ (token.start < offset ∧ offset < token.stop)

theorem Whole.clear (whole : Whole source offset) : Clear source offset :=
  ⟨whole.boundary, fun comment member _ => whole.outside comment member⟩

/-- A token that begins with a character which shows. -/
def Shows (source : String) (token : Token) : Prop :=
  ∃ before c rest, Text.Cut source token.start before (c :: rest) ∧ Text.isBlank c = false

/-- What follows an offset outside of tokens up to the end of its line, if it looks like a comment, is one: nothing
that shows begins before it. -/
theorem exists_comment (whole : Whole source offset) (trivia : Text.restIsTrivia source offset = true) :
    ∃ limit, limit ≤ Text.lineEnd source offset ∧
      (∀ token ∈ list source, offset ≤ token.start → token.start < limit → ¬ Shows source token ∧ token.stop ≤ limit) ∧
      (limit = Text.lineEnd source offset ∨
        ∃ comment ∈ list source, comment.kind = .comment ∧ comment.start = limit ∧
          comment.stop = Text.lineEnd source offset) := by
  obtain ⟨before, after, cut⟩ := Text.isBoundary_iff.1 whole.boundary
  obtain ⟨gap, core, line, blanks, form⟩ := Text.exists_of_restIsTrivia cut trivia
  have ending := Text.lineEnd_eq cut
  rw [line, Text.byteCount_append] at ending
  have chars : after = gap ++ (core ++ after.dropWhile (· != '\n')) := by
    rw [← List.append_assoc, ← line, List.takeWhile_append_dropWhile]
  have broken : (after.dropWhile (· != '\n')).takeWhile (· != '\n') = [] := by
    have test := List.head?_dropWhile_not (· != '\n') after
    cases rest : after.dropWhile (· != '\n') with
    | nil => rfl
    | cons c others =>
        rw [rest] at test
        exact List.takeWhile_cons_of_neg (by simpa using test)
  generalize after.dropWhile (· != '\n') = others at chars broken
  subst chars
  -- a token that begins in the gap is a character by itself that is none
  have single : ∀ token ∈ list source, offset ≤ token.start → token.start < offset + Text.byteCount gap →
      ¬ Shows source token ∧ token.stop ≤ offset + Text.byteCount gap := by
    intro token member later inside
    refine ⟨?_, ?_⟩
    · rintro ⟨before', c, rest, cut', visible⟩
      rw [blanks c (cut.mem_of_inside cut' later inside).1] at visible
      cases visible
    · by_cases wide : token.start < token.stop
      · obtain ⟨before', c, rest, cut', space, _, _, stop⟩ := list_isRead member wide
        obtain ⟨blank, bound⟩ := cut.mem_of_inside cut' later inside
        rw [Lexeme.after_of_isBlank (blanks c blank) space, List.take_zero, Text.byteCount_cons, Text.byteCount_nil] at stop
        omega
      · omega
  refine ⟨offset + Text.byteCount gap, by omega, single, ?_⟩
  rcases form with rfl | ⟨more, rfl⟩
  · rw [Text.byteCount_nil] at ending
    exact .inl (by omega)
  -- the slashes belong to a token, which begins with them
  have slashes : Text.Cut source (offset + Text.byteCount gap) (before ++ gap) ('/' :: '/' :: (more ++ others)) := cut.step
  obtain ⟨comment, listed, starts, stops⟩ := list_covers slashes (by decide) (by decide)
  have same : comment.start = offset + Text.byteCount gap := by
    by_contra other
    have onward : offset ≤ comment.start := by
      by_contra before
      exact whole.outside comment listed ⟨by omega, by omega⟩
    have bound := (single comment listed onward (by omega)).2
    omega
  obtain ⟨before', c, rest, cut', space, kind, _, stop⟩ := list_isRead listed (by omega)
  rw [same] at cut'
  cases slashes.after_eq cut'
  rw [Lexeme.after_slashes] at kind stop
  refine .inr ⟨comment, listed, kind, same, ?_⟩
  have clear : ∀ c ∈ more, (c != '\n') = true := by
    intro c member
    have inside : c ∈ gap ++ '/' :: '/' :: more := by simp [member]
    rw [← line] at inside
    exact List.mem_takeWhile_imp (p := (· != '\n')) inside
  rw [List.takeWhile_append_of_pos clear, broken, List.append_nil, Nat.add_comm 1, List.take_succ_cons,
    List.take_left] at stop
  simp only [Text.byteCount_cons] at stop ending
  omega

/-- No other token begins before the end of the line. -/
theorem lineEnd_le_start (whole : Whole source offset) (trivia : Text.restIsTrivia source offset = true)
    (member : token ∈ list source) (solid : token.kind ≠ .comment) (shows : Shows source token)
    (wide : token.start < token.stop) (later : offset ≤ token.start) : Text.lineEnd source offset ≤ token.start := by
  by_contra early
  obtain ⟨limit, _, single, rfl | ⟨comment, listed, kind, start, stop⟩⟩ := exists_comment whole trivia
  · exact (single token member later (by omega)).1 shows
  · have reached : limit ≤ token.start := by
      by_contra inside
      exact (single token member later (by omega)).1 shows
    rcases list_apart member listed with rfl | before | after
    · exact solid kind
    · omega
    · omega

/-- The end of the line is not inside a token. -/
theorem whole_lineEnd (whole : Whole source offset) (trivia : Text.restIsTrivia source offset = true) :
    Whole source (Text.lineEnd source offset) := by
  refine ⟨Text.isBoundary_lineEnd whole.boundary, fun token member => ?_⟩
  rintro ⟨starts, stops⟩
  have bound : offset ≤ Text.lineEnd source offset := Nat.le_add_right _ _
  have later : offset ≤ token.start := by
    by_contra before
    exact whole.outside token member ⟨by omega, by omega⟩
  obtain ⟨limit, upper, single, rfl | ⟨comment, listed, kind, start, stop⟩⟩ := exists_comment whole trivia
  · have ends := (single token member later starts).2
    omega
  · have reached : limit ≤ token.start := by
      by_contra inside
      have ends := (single token member later (by omega)).2
      omega
    rcases list_apart member listed with rfl | before | after <;> omega

theorem shows_of_word (member : token ∈ list source) (word : token.kind = .word) : Shows source token := by
  obtain ⟨before, c, rest, cut, _, kind, _⟩ := list_isRead member (list_wide member (by simp [word]))
  refine ⟨before, c, rest, cut, ?_⟩
  by_contra blank
  have apart := Text.startsWord_of_isBlank (Bool.of_not_eq_false blank)
  rw [Lexeme.startsWord_of_after (kind.symm.trans word)] at apart
  cases apart

/-- A mark of one character. -/
theorem cut_of_isMark {c : Char} (member : token ∈ list source) (mark : token.isMark (String.singleton c) = true) :
    (∃ before rest, Text.Cut source token.start before (c :: rest)) ∧ token.stop = token.start + c.utf8Size := by
  simp only [isMark, Bool.and_eq_true, beq_iff_eq] at mark
  obtain ⟨before, d, rest, cut, _, _, text, stop⟩ := list_isRead member (list_wide member (by simp [mark.1]))
  have chars := congrArg String.toList (mark.2.symm.trans text)
  rw [String.toList_ofList, String.toList_singleton] at chars
  rw [← chars] at stop
  rw [(List.cons.inj chars).1]
  exact ⟨⟨before, rest, cut⟩, by rw [stop, (List.cons.inj chars).1]; rfl⟩

theorem whole_of_mem (member : token ∈ list source) : Whole source token.start ∧ Whole source token.stop := by
  obtain ⟨exact, _⟩ := (ordered_iff.1 (list_ordered source)).1 token member
  have size := exact.le
  refine ⟨⟨exact.starts, fun other member' inside => ?_⟩, ⟨exact.stops, fun other member' inside => ?_⟩⟩
  · rcases list_apart member member' with rfl | before | after <;> omega
  · rcases list_apart member member' with rfl | before | after <;> omega

end Token

theorem Tree.parse_whole (source : String) : Node.Annotated (Token.Whole source) (Tree.parse source).root := by
  refine Tree.parse_annotated_of ?_ ?_ (fun _ member => Token.whole_of_mem member) fun _ whole => whole.clear
  · exact ⟨Text.isBoundary_zero source, fun _ _ inside => Nat.not_lt_zero _ inside.1⟩
  · refine ⟨Text.isBoundary_size source, fun token member inside => ?_⟩
    have bound := ((Token.ordered_iff.1 (Token.list_ordered source)).1 token member).2
    omega

end Go
end TraceWeave
