import TraceWeave.Proofs.Go.Numerals

/-!
Lexemes and what stands behind them. A word, number or mark is the same in front of every stop; strings and
comments end with marks of their own.
-/
namespace TraceWeave.Go

namespace Lexeme

variable {cs rest : List Char} {c : Char}

theorem isPrefixOf_append {text : List Char} (clear : ∀ c ∈ text, c ∉ stopChars) (stopped : Stopped rest) :
    text.isPrefixOf (cs ++ rest) = text.isPrefixOf cs := by
  induction text generalizing cs with
  | nil => rfl
  | cons d text ih =>
      obtain ⟨here, later⟩ := List.forall_mem_cons.1 clear
      cases cs with
      | nil =>
          rcases rest with _ | ⟨c, rest⟩
          · rfl
          · have other : d ≠ c := fun same => here (same ▸ stopped_cons.1 stopped)
            simp [List.isPrefixOf, other]
      | cons c cs => simp only [List.cons_append, List.isPrefixOf_cons_cons, ih later]

theorem mark_append (stopped : Stopped rest) : mark (c :: cs ++ rest) = mark (c :: cs) := by
  have clear : ∀ text ∈ marks, ∀ c ∈ text.toList.tail, c ∉ stopChars := by
    have tested : (marks.all fun text => text.toList.tail.all fun c => decide (c ∉ stopChars)) = true := by decide
    exact fun text member => List.all_iff_forall_prop.1 (List.all_eq_true.1 tested text member)
  have same : ∀ text ∈ marks, text.toList.isPrefixOf (c :: cs ++ rest) = text.toList.isPrefixOf (c :: cs) := by
    intro text member
    have inner := clear text member
    cases chars : text.toList with
    | nil => rfl
    | cons d ds =>
        rw [chars, List.tail_cons] at inner
        simp only [List.cons_append, List.isPrefixOf_cons_cons, isPrefixOf_append inner stopped]
  have found : marks.find? (fun text => text.toList.isPrefixOf (c :: cs ++ rest)) =
      marks.find? (fun text => text.toList.isPrefixOf (c :: cs)) := by
    generalize marks = texts at same
    induction texts with
    | nil => rfl
    | cons text texts ih =>
        obtain ⟨here, later⟩ := List.forall_mem_cons.1 same
        rw [List.find?_cons, List.find?_cons, here, ih later]
  rw [mark, mark, found]

/-! Strings, runes and comments end with marks of their own. -/

/-- What is found does not depend on what stands behind it. -/
def Closed (f : List Char → Option Nat) : Prop :=
  ∀ cs count, f cs = some count → count ≤ cs.length ∧ ∀ rest, f (cs.take count ++ rest) = some count

theorem closed_interpretedRest? : Closed interpretedRest? := by
  intro cs count found
  fun_induction interpretedRest? cs generalizing count with
  | case1 => cases found
  | case2 a b cs hex ih =>
      obtain ⟨more, found', rfl⟩ := Option.map_eq_some_iff.1 found
      obtain ⟨bound, same⟩ := ih more found'
      exact ⟨by simpa using bound, fun rest => by simp [interpretedRest?, hex, same]⟩
  | case3 a b cs hex => cases found
  | case4 a b c d cs hex ih =>
      obtain ⟨more, found', rfl⟩ := Option.map_eq_some_iff.1 found
      obtain ⟨bound, same⟩ := ih more found'
      refine ⟨by simpa using bound, fun rest => ?_⟩
      simp only [List.take_succ_cons, List.cons_append, interpretedRest?, hex, if_true, same, Option.map_some]
  | case5 a b c d cs hex => cases found
  | case6 a b c d e f g h cs hex ih =>
      obtain ⟨more, found', rfl⟩ := Option.map_eq_some_iff.1 found
      obtain ⟨bound, same⟩ := ih more found'
      refine ⟨by simpa using bound, fun rest => ?_⟩
      simp only [List.take_succ_cons, List.cons_append, interpretedRest?, hex, if_true, same, Option.map_some]
  | case7 a b c d e f g h cs hex => cases found
  | case8 c cs _ _ _ letter => cases found
  | case9 c cs _ _ _ letter ih =>
      obtain ⟨more, found', rfl⟩ := Option.map_eq_some_iff.1 found
      obtain ⟨bound, same⟩ := ih more found'
      refine ⟨by simpa using bound, fun rest => ?_⟩
      simp at letter
      simp [interpretedRest?, letter, same]
  | case10 c cs _ _ _ _ quote =>
      cases found
      obtain rfl := beq_iff_eq.1 quote
      exact ⟨by simp, fun rest => by rw [interpretedRest?.eq_def]; rfl⟩
  | case11 => cases found
  | case12 c cs _ _ _ _ quote plain ih =>
      obtain ⟨more, found', rfl⟩ := Option.map_eq_some_iff.1 found
      obtain ⟨bound, same⟩ := ih more found'
      refine ⟨by simpa using bound, fun rest => ?_⟩
      simp at plain
      simp [interpretedRest?, quote, plain, same]

theorem closed_upTo? (mark : Char) : Closed (upTo? mark) := by
  intro cs count found
  induction cs generalizing count with
  | nil => cases found
  | cons c cs ih =>
      rw [upTo?] at found
      split at found
      · rename_i same
        cases found
        exact ⟨by simp, fun rest => by simp [upTo?, same]⟩
      · rename_i other
        obtain ⟨more, found', rfl⟩ := Option.map_eq_some_iff.1 found
        obtain ⟨bound, same⟩ := ih more found'
        exact ⟨by simpa using bound, fun rest => by simp [upTo?, other, same]⟩


theorem closed_blockCommentRest? : Closed blockCommentRest? := by
  have wide : ∀ cs, blockCommentRest? cs ≠ some 0 := by
    intro cs found
    unfold blockCommentRest? at found
    split at found
    · cases found
    · obtain ⟨more, _, contrary⟩ := Option.map_eq_some_iff.1 found
      cases contrary
    · cases found
  intro cs count found
  fun_induction blockCommentRest? cs generalizing count with
  | case1 cs =>
      cases found
      exact ⟨by simp, fun rest => rfl⟩
  | case2 c cs other ih =>
      obtain ⟨more, found', rfl⟩ := Option.map_eq_some_iff.1 found
      obtain ⟨bound, same⟩ := ih more found'
      refine ⟨by simpa using bound, fun rest => ?_⟩
      rw [List.take_succ_cons, List.cons_append, blockCommentRest?, same]
      · rfl
      · rintro others rfl begins
        cases more with
        | zero => exact wide cs found'
        | succ more =>
            cases cs with
            | nil => cases found'
            | cons d cs => exact other cs rfl (by rw [(List.cons.inj begins).1])
  | case3 => cases found

/-- How many digits an escape sequence has after its first character, and which. -/
def escapeDigits (c : Char) : Option (Nat × (Char → Bool)) :=
  if c == 'x' then some (2, isHexDigit)
  else if c == 'u' then some (4, isHexDigit)
  else if c == 'U' then some (8, isHexDigit)
  else if isOctalDigit c then some (2, isOctalDigit)
  else none

theorem runeEscape_cons (c : Char) (cs : List Char) : runeEscape (c :: cs) =
    if ['a', 'b', 'f', 'n', 'r', 't', 'v', '\\', apostrophe, quotation].contains c then 1
    else match escapeDigits c with
      | some (count, digit) => if cs.length ≥ count ∧ (cs.take count).all digit = true then count + 1 else 0
      | none => 0 := by
  have apart : isOctalDigit 'x' = false ∧ isOctalDigit 'u' = false ∧ isOctalDigit 'U' = false := by decide
  rw [runeEscape, escapeDigits]
  by_cases x : c = 'x'
  · subst x
    simp [apart]
  by_cases u : c = 'u'
  · subst u
    simp [apart]
  by_cases upper : c = 'U'
  · subst upper
    simp [apart]
  cases octal : isOctalDigit c <;> simp [x, u, upper]

theorem runeEscape_take {size : Nat} (found : runeEscape cs = size) (some : size ≠ 0) :
    size ≤ cs.length ∧ ∀ rest, runeEscape (cs.take size ++ rest) = size := by
  cases cs with
  | nil => exact absurd found.symm some
  | cons c cs =>
      rw [runeEscape_cons] at found
      split at found
      · rename_i plain
        subst found
        exact ⟨by simp, fun rest => by rw [List.take_succ_cons, List.cons_append, runeEscape_cons, if_pos plain]⟩
      rename_i plain
      split at found
      · rename_i count digit asks
        split at found
        · rename_i digits
          subst found
          obtain ⟨bound, all⟩ := digits
          refine ⟨Nat.succ_le_succ bound, fun rest => ?_⟩
          have length : (cs.take count).length = count := List.length_take_of_le bound
          rw [List.take_succ_cons, List.cons_append, runeEscape_cons, if_neg plain, asks]
          dsimp only
          rw [if_pos]
          rw [List.take_append_of_le_length (by omega), List.take_take, Nat.min_self, List.length_append, length]
          exact ⟨Nat.le_add_right _ _, all⟩
        · exact absurd found.symm some
      · exact absurd found.symm some

/-- Length of the character of a rune literal; zero without one. -/
def runeSize : List Char → Nat
  | '\\' :: rest => if runeEscape rest = 0 then 0 else 1 + runeEscape rest
  | c :: _ => if c == apostrophe then 0 else 1
  | [] => 0

theorem runeRest?_eq (cs : List Char) : runeRest? cs =
    match cs.drop (runeSize cs) with
    | c :: _ => if c == apostrophe && decide (0 < runeSize cs) then some (runeSize cs + 1) else none
    | [] => none := rfl

theorem runeSize_take (some : runeSize cs ≠ 0) :
    runeSize cs ≤ cs.length ∧ ∀ rest, runeSize (cs.take (runeSize cs) ++ rest) = runeSize cs := by
  cases cs with
  | nil => exact absurd rfl some
  | cons c cs =>
      by_cases escape : c = '\\'
      · subst escape
        have size : runeSize ('\\' :: cs) = if runeEscape cs = 0 then 0 else 1 + runeEscape cs := rfl
        rw [size] at some ⊢
        split at some
        · exact absurd rfl some
        · rename_i found
          obtain ⟨bound, same⟩ := runeEscape_take rfl found
          rw [if_neg found]
          refine ⟨by simp only [List.length_cons]; omega, fun rest => ?_⟩
          rw [Nat.add_comm 1, List.take_succ_cons, List.cons_append, runeSize, same, if_neg found, Nat.add_comm]
      · have size : ∀ cs, runeSize (c :: cs) = if c == apostrophe then 0 else 1 := by
          intro cs
          simp [runeSize]
        rw [size] at some ⊢
        split at some
        · exact absurd rfl some
        · rename_i other
          rw [if_neg other]
          exact ⟨by simp, fun rest => by rw [List.take_succ_cons, List.cons_append, size, if_neg other]⟩

theorem closed_runeRest? : Closed runeRest? := by
  intro cs count found
  rw [runeRest?_eq] at found
  split at found
  · rename_i c others behind
    split at found
    · rename_i closes
      cases found
      simp only [Bool.and_eq_true, decide_eq_true_eq] at closes
      obtain ⟨bound, same⟩ := runeSize_take (Nat.ne_of_gt closes.2)
      have size := congrArg List.length behind
      rw [List.length_drop, List.length_cons] at size
      refine ⟨by omega, fun rest => ?_⟩
      have front : cs.take (runeSize cs + 1) = cs.take (runeSize cs) ++ [c] := by
        rw [List.take_add, behind, List.take_succ_cons, List.take_zero]
      have length : (cs.take (runeSize cs)).length = runeSize cs := List.length_take_of_le bound
      rw [front, List.append_assoc, runeRest?_eq, same, List.drop_left' length]
      simp [closes]
    · cases found
  · cases found

theorem Closed.congr {f : List Char → Option Nat} (closed : Closed f) {count : Nat}
    (found : f (cs ++ rest) = some count) (fits : count ≤ cs.length) (rest' : List Char) : f (cs ++ rest') = some count := by
  have same := (closed _ _ found).2 (cs.drop count ++ rest')
  rwa [List.take_append_of_le_length fits, ← List.append_assoc, List.take_append_drop] at same

theorem takeWhile_append_stop {test : Char → Bool} (apart : Apart test) (stopped : Stopped rest) :
    (cs ++ rest).takeWhile test = cs.takeWhile test := by
  have none : rest.takeWhile test = [] := by
    cases rest with
    | nil => rfl
    | cons c rest => rw [List.takeWhile_cons_of_neg (by simp [apart c (stopped_cons.1 stopped)])]
  rw [List.takeWhile_append, none, List.append_nil]
  split
  · rename_i whole
    exact ((List.takeWhile_prefix test).eq_of_length whole).symm
  · rfl

/-- A character that begins a string, a rune or a comment. -/
def IsSpecial (c : Char) : Prop := c = quotation ∨ c = backQuote ∨ c = apostrophe ∨ c = '/'

theorem after_of_plain (plain : ¬ IsSpecial c) (cs : List Char) : after c cs =
    if Text.startsWord c then (.word, (cs.takeWhile Text.continuesWord).length)
    else if (number (c :: cs)).2 = 0 then if mark (c :: cs) = 0 then (.bad, 0) else (.mark, mark (c :: cs) - 1)
    else ((number (c :: cs)).1, (number (c :: cs)).2 - 1) := by
  simp only [IsSpecial, not_or] at plain
  obtain ⟨quotation, back, apostrophe, slash⟩ := plain
  simp [after, quotation, back, apostrophe, slash]

/-- A word, number or mark is the same before every stop. -/
theorem after_append (plain : ¬ IsSpecial c) (stopped : Stopped rest) : after c (cs ++ rest) = after c cs := by
  rw [after_of_plain plain, after_of_plain plain, takeWhile_append_stop apart_continuesWord stopped, ← List.cons_append,
    number_append stopped, mark_append stopped]

theorem after_slash (other : cs.head? ≠ some '/' ∧ cs.head? ≠ some '*') : after '/' cs =
    if (number ('/' :: cs)).2 = 0 then if mark ('/' :: cs) = 0 then (.bad, 0) else (.mark, mark ('/' :: cs) - 1)
    else ((number ('/' :: cs)).1, (number ('/' :: cs)).2 - 1) := by
  have apart : Text.startsWord '/' = false := by decide +kernel
  have quotes : '/' ≠ quotation ∧ '/' ≠ backQuote ∧ '/' ≠ apostrophe := by decide
  cases cs with
  | nil => simp [after, apart, quotes]
  | cons d cs =>
      have slash : d ≠ '/' := fun same => other.1 (by rw [same]; rfl)
      have star : d ≠ '*' := fun same => other.2 (by rw [same]; rfl)
      simp [after, apart, quotes, slash, star]

/-- A lexeme with a closing mark, if that is there. -/
def delimited (kind : TokenKind) : Option Nat → TokenKind × Nat
  | some more => (kind, more)
  | none => (.bad, 0)

theorem after_star (cs : List Char) :
    after '/' ('*' :: cs) = delimited .comment ((blockCommentRest? cs).map (· + 1)) := by
  have apart : Text.startsWord '/' = false := by decide +kernel
  have quotes : '/' ≠ quotation ∧ '/' ≠ backQuote ∧ '/' ≠ apostrophe := by decide
  simp only [after, apart, quotes, Bool.false_eq_true, if_false, beq_iff_eq]
  rfl

theorem after_quotation (cs : List Char) : after quotation cs = delimited .interpreted (interpretedRest? cs) := by
  have apart : Text.startsWord quotation = false := by decide +kernel
  simp only [after, apart, Bool.false_eq_true, if_false, beq_self_eq_true, if_true]
  rfl

theorem after_backQuote (cs : List Char) : after backQuote cs = delimited .raw (upTo? backQuote cs) := by
  have apart : Text.startsWord backQuote = false := by decide +kernel
  have other : (backQuote == quotation) = false := by decide
  simp only [after, apart, other, Bool.false_eq_true, if_false, beq_self_eq_true, if_true]
  rfl

theorem after_apostrophe (cs : List Char) : after apostrophe cs = delimited .rune (runeRest? cs) := by
  have apart : Text.startsWord apostrophe = false := by decide +kernel
  have other : (apostrophe == quotation) = false ∧ (apostrophe == backQuote) = false := by decide
  simp only [after, apart, other, Bool.false_eq_true, if_false, beq_self_eq_true, if_true]
  rfl

theorem Closed.delimited {f : List Char → Option Nat} (closed : Closed f) {kind kind' : TokenKind} {more : Nat}
    (found : delimited kind (f (cs ++ rest)) = (kind', more)) (fits : more ≤ cs.length) (known : kind' ≠ .bad)
    (rest' : List Char) : Lexeme.delimited kind (f (cs ++ rest')) = (kind', more) := by
  cases outcome : f (cs ++ rest) with
  | none =>
      rw [outcome] at found
      cases found
      exact absurd rfl known
  | some count =>
      rw [outcome] at found
      cases found
      rw [closed.congr outcome fits]
      rfl

/-- Words, numbers, marks and strings are the same before every stop. -/
theorem after_program {rest' : List Char} {kind : TokenKind} {more : Nat} (stopped : Stopped rest)
    (stopped' : Stopped rest') (found : after c (cs ++ rest) = (kind, more)) (fits : more ≤ cs.length)
    (known : kind ≠ .bad) (program : kind ≠ .comment) (apart : c = '/' → cs = [] → rest'.head? ≠ some '/') :
    after c (cs ++ rest') = (kind, more) := by
  by_cases special : IsSpecial c
  · rcases special with rfl | rfl | rfl | rfl
    · rw [after_quotation] at found ⊢
      exact closed_interpretedRest?.delimited found fits known rest'
    · rw [after_backQuote] at found ⊢
      exact (closed_upTo? _).delimited found fits known rest'
    · rw [after_apostrophe] at found ⊢
      exact closed_runeRest?.delimited found fits known rest'
    · have star : '*' ∉ stopChars := by decide
      by_cases slashes : (cs ++ rest).head? = some '/'
      · obtain ⟨others, same⟩ : ∃ others, cs ++ rest = '/' :: others := ⟨_, (List.eq_cons_of_mem_head? slashes)⟩
        rw [same, after_slashes] at found
        cases found
        exact absurd rfl program
      by_cases stars : (cs ++ rest).head? = some '*'
      · obtain ⟨others, same⟩ : ∃ others, cs ++ rest = '*' :: others := ⟨_, (List.eq_cons_of_mem_head? stars)⟩
        rw [same, after_star] at found
        cases outcome : (blockCommentRest? others).map (· + 1) with
        | none =>
            rw [outcome] at found
            cases found
            exact absurd rfl known
        | some count =>
            rw [outcome] at found
            cases found
            exact absurd rfl program
      have other' : (cs ++ rest').head? ≠ some '/' ∧ (cs ++ rest').head? ≠ some '*' := by
        cases cs with
        | nil => exact ⟨apart rfl rfl, fun same => star (stopped' _ (Option.mem_def.2 same))⟩
        | cons d cs => exact ⟨slashes, stars⟩
      rw [after_slash ⟨slashes, stars⟩, ← List.cons_append, number_append stopped, mark_append stopped] at found
      rw [after_slash other', ← List.cons_append, number_append stopped', mark_append stopped']
      exact found
  · rw [after_append special stopped] at found
    rw [after_append special stopped']
    exact found

theorem kind_number (cs : List Char) : (number cs).1 ≠ .comment ∧ (number cs).1 ≠ .eof := by
  unfold number
  dsimp only
  split <;> split <;> simp

theorem kind_delimited {kind : TokenKind} (found : Option Nat) :
    (delimited kind found).1 = kind ∨ (delimited kind found).1 = .bad := by
  cases found with
  | none => exact .inr rfl
  | some => exact .inl rfl

/-- Words, numbers and marks, and what is none of these. -/
theorem kind_after_of_plain (plain : ¬ IsSpecial c) (cs : List Char) :
    (after c cs).1 ≠ .comment ∧ (after c cs).1 ≠ .eof := by
  rw [after_of_plain plain]
  split
  · simp
  · split
    · split <;> simp
    · dsimp only
      exact kind_number (c :: cs)

/-- The end of a text is no lexeme. -/
theorem kind_after_ne_eof (c : Char) (cs : List Char) : (after c cs).1 ≠ .eof := by
  have apart : ∀ {kind : TokenKind} {found : Option Nat}, kind ≠ .eof → (delimited kind found).1 ≠ .eof := by
    intro kind found other
    rcases kind_delimited found with is | is
    · rw [is]
      exact other
    · rw [is]
      simp
  by_cases special : IsSpecial c
  · rcases special with rfl | rfl | rfl | rfl
    · exact after_quotation cs ▸ apart (by simp)
    · exact after_backQuote cs ▸ apart (by simp)
    · exact after_apostrophe cs ▸ apart (by simp)
    · by_cases slashes : cs.head? = some '/'
      · rw [List.eq_cons_of_mem_head? slashes, after_slashes]
        simp
      by_cases stars : cs.head? = some '*'
      · rw [List.eq_cons_of_mem_head? stars, after_star]
        exact apart (by simp)
      · rw [after_slash ⟨slashes, stars⟩]
        split
        · split <;> simp
        · exact (kind_number ('/' :: cs)).2
  · exact (kind_after_of_plain special cs).2

/-- Comments begin with a slash. -/
theorem slash_of_comment {cs : List Char} (comment : (after c cs).1 = .comment) : c = '/' := by
  have apart : ∀ {kind : TokenKind} {found : Option Nat}, kind ≠ .comment → (delimited kind found).1 ≠ .comment := by
    intro kind found other
    rcases kind_delimited found with is | is
    · rw [is]
      exact other
    · rw [is]
      simp
  by_contra other
  by_cases special : IsSpecial c
  · rcases special with rfl | rfl | rfl | rfl
    · exact apart (by simp) (after_quotation cs ▸ comment)
    · exact apart (by simp) (after_backQuote cs ▸ comment)
    · exact apart (by simp) (after_apostrophe cs ▸ comment)
    · exact other rfl
  · exact (kind_after_of_plain special cs).1 comment

/-- The rest of a line that ends in front of some text. -/
theorem takeWhile_append_line (size : ((cs ++ rest).takeWhile (· != '\n')).length ≤ cs.length)
    (ended : ((cs ++ rest).takeWhile (· != '\n')).length = cs.length → rest ≠ [] ∧ rest.head? ≠ some '\n')
    (rest' : List Char) : (cs ++ rest').takeWhile (· != '\n') = (cs ++ rest).takeWhile (· != '\n') := by
  have short : (cs.takeWhile (· != '\n')).length ≠ cs.length := by
    intro whole
    rw [List.takeWhile_append, if_pos whole, List.length_append] at size ended
    obtain ⟨filled, head⟩ := ended (by omega)
    cases rest with
    | nil => exact filled rfl
    | cons d rest =>
        rw [List.takeWhile_cons_of_pos (by simpa using head), List.length_cons] at size
        omega
  rw [List.takeWhile_append, if_neg short, List.takeWhile_append, if_neg short]

/-- A comment is the same before every text, if it is closed or the line ends in front of that text. -/
theorem after_comment {more : Nat} (found : after c (cs ++ rest) = (.comment, more)) (fits : more ≤ cs.length)
    (ended : more = cs.length → rest ≠ [] ∧ rest.head? ≠ some '\n') (rest' : List Char) :
    after c (cs ++ rest') = (.comment, more) := by
  obtain rfl := slash_of_comment (congrArg Prod.fst found)
  have begins : (cs ++ rest).head? = some '/' ∨ (cs ++ rest).head? = some '*' := by
    by_contra other
    rw [not_or] at other
    rw [after_slash other] at found
    split at found
    · split at found <;> cases found
    · exact (kind_number ('/' :: (cs ++ rest))).1 (Prod.mk.inj found).1
  cases cs with
  | nil =>
      rcases begins with slash | star
      · have same : [] ++ rest = '/' :: rest.tail := List.eq_cons_of_mem_head? slash
        rw [same, after_slashes] at found
        cases found
        simp at fits
      · have same : [] ++ rest = '*' :: rest.tail := List.eq_cons_of_mem_head? star
        rw [same, after_star] at found
        cases outcome : blockCommentRest? rest.tail with
        | none =>
            rw [outcome] at found
            cases found
        | some count =>
            rw [outcome] at found
            cases found
            simp at fits
  | cons d cs =>
      rcases begins with slash | star
      · cases slash
        rw [List.cons_append, after_slashes, Prod.mk.injEq] at found ⊢
        obtain ⟨_, rfl⟩ := found
        rw [List.length_cons] at fits ended
        rw [takeWhile_append_line (by omega) (fun same => ended (by omega)) rest']
        exact ⟨rfl, rfl⟩
      · cases star
        rw [List.cons_append, after_star] at found ⊢
        cases outcome : blockCommentRest? (cs ++ rest) with
        | none =>
            rw [outcome] at found
            cases found
        | some count =>
            rw [outcome] at found
            cases found
            rw [closed_blockCommentRest?.congr outcome (by simpa using fits)]
            rfl

theorem mark_le (cs : List Char) : mark cs ≤ cs.length := by
  unfold mark
  split
  · rename_i text found
    have begins := List.find?_some found
    exact (List.isPrefixOf_iff_prefix.1 begins).length_le
  · exact Nat.zero_le _

theorem delimited_le {f : List Char → Option Nat} (closed : Closed f) (kind : TokenKind) :
    (delimited kind (f cs)).2 ≤ cs.length := by
  cases found : f cs with
  | none => exact Nat.zero_le _
  | some count => exact (closed _ _ found).1

/-- A lexeme is part of the text. -/
theorem after_le (c : Char) (cs : List Char) : (after c cs).2 ≤ cs.length := by
  have others : (if (number (c :: cs)).2 = 0 then
        if mark (c :: cs) = 0 then (TokenKind.bad, 0) else (.mark, mark (c :: cs) - 1)
      else ((number (c :: cs)).1, (number (c :: cs)).2 - 1)).2 ≤ cs.length := by
    have size := number_le (c :: cs)
    have size' := mark_le (c :: cs)
    rw [List.length_cons] at size size'
    split
    · split <;> dsimp only <;> omega
    · dsimp only
      omega
  by_cases special : IsSpecial c
  · rcases special with rfl | rfl | rfl | rfl
    · rw [after_quotation]
      exact delimited_le closed_interpretedRest? _
    · rw [after_backQuote]
      exact delimited_le (closed_upTo? _) _
    · rw [after_apostrophe]
      exact delimited_le closed_runeRest? _
    · by_cases slashes : cs.head? = some '/'
      · rw [List.eq_cons_of_mem_head? slashes, after_slashes, List.length_cons]
        have size := (List.takeWhile_prefix (· != '\n') : cs.tail.takeWhile (· != '\n') <+: cs.tail).length_le
        dsimp only
        omega
      by_cases stars : cs.head? = some '*'
      · rw [List.eq_cons_of_mem_head? stars, after_star, List.length_cons]
        cases found : blockCommentRest? cs.tail with
        | none => exact Nat.zero_le _
        | some count => exact Nat.succ_le_succ (closed_blockCommentRest? _ _ found).1
      · rw [after_slash ⟨slashes, stars⟩]
        exact others
  · rw [after_of_plain special]
    split
    · exact (List.takeWhile_prefix _).length_le
    · exact others

/-! What a lexeme ends with. -/

/-- What is found ends with a mark. -/
def EndsWith (mark : Char) (f : List Char → Option Nat) : Prop :=
  ∀ cs count, f cs = some count → (cs.take count).getLast? = some mark

theorem endsWith_interpretedRest? : EndsWith quotation interpretedRest? := by
  intro cs count found
  fun_induction interpretedRest? cs generalizing count with
  | case1 => cases found
  | case2 a b cs hex ih =>
      obtain ⟨more, found', rfl⟩ := Option.map_eq_some_iff.1 found
      simp [List.getLast?_cons, ih _ found']
  | case3 => cases found
  | case4 a b c d cs hex ih =>
      obtain ⟨more, found', rfl⟩ := Option.map_eq_some_iff.1 found
      simp [List.getLast?_cons, ih _ found']
  | case5 => cases found
  | case6 a b c d e f g h cs hex ih =>
      obtain ⟨more, found', rfl⟩ := Option.map_eq_some_iff.1 found
      simp [List.getLast?_cons, ih _ found']
  | case7 => cases found
  | case8 => cases found
  | case9 c cs _ _ _ _ ih =>
      obtain ⟨more, found', rfl⟩ := Option.map_eq_some_iff.1 found
      simp [List.getLast?_cons, ih _ found']
  | case10 c cs _ _ _ _ closes =>
      cases found
      simp [beq_iff_eq.1 closes]
  | case11 => cases found
  | case12 c cs _ _ _ _ _ _ ih =>
      obtain ⟨more, found', rfl⟩ := Option.map_eq_some_iff.1 found
      simp [List.getLast?_cons, ih _ found']

theorem endsWith_upTo? (mark : Char) : EndsWith mark (upTo? mark) := by
  intro cs count found
  induction cs generalizing count with
  | nil => cases found
  | cons c cs ih =>
      rw [upTo?] at found
      split at found
      · rename_i same
        cases found
        simp [beq_iff_eq.1 same]
      · obtain ⟨more, found', rfl⟩ := Option.map_eq_some_iff.1 found
        simp [List.getLast?_cons, ih _ found']

theorem endsWith_runeRest? : EndsWith apostrophe runeRest? := by
  intro cs count found
  rw [runeRest?_eq] at found
  split at found
  · rename_i c others behind
    split at found
    · rename_i closes
      cases found
      rw [Bool.and_eq_true, beq_iff_eq] at closes
      rw [List.take_add, behind, List.take_succ_cons, List.take_zero, closes.1, List.getLast?_concat]
    · cases found
  · cases found

theorem endsWith_blockCommentRest? : EndsWith '/' blockCommentRest? := by
  intro cs count found
  fun_induction blockCommentRest? cs generalizing count with
  | case1 cs =>
      cases found
      rfl
  | case2 c cs other ih =>
      obtain ⟨more, found', rfl⟩ := Option.map_eq_some_iff.1 found
      simp [List.getLast?_cons, ih _ found']
  | case3 => cases found

theorem EndsWith.delimited {mark : Char} {f : List Char → Option Nat} (ends : EndsWith mark f) {kind : TokenKind}
    (found : (delimited kind (f cs)).2 ≠ 0) : (cs.take (Lexeme.delimited kind (f cs)).2).getLast? = some mark := by
  cases outcome : f cs with
  | none =>
      rw [outcome] at found
      exact absurd rfl found
  | some count => exact ends cs count outcome

theorem after_feed_slash (other : (cs ++ '\n' :: rest).head? ≠ some '/' ∧ (cs ++ '\n' :: rest).head? ≠ some '*') :
    after '/' (cs ++ '\n' :: rest) = after '/' cs := by
  have stopped : Stopped ('\n' :: rest) := stopped_cons.2 (by decide)
  have other' : cs.head? ≠ some '/' ∧ cs.head? ≠ some '*' := by
    cases cs with
    | nil => simp
    | cons d cs => exact other
  rw [after_slash other, after_slash other', ← List.cons_append, number_append stopped, mark_append stopped]

/-- A lexeme that does not end with its line ends with a mark that shows. -/
theorem last_of_feed (feed : '\n' ∈ cs.take (after c cs).2) :
    ∃ last, (cs.take (after c cs).2).getLast? = some last ∧ Text.isBlank last = false := by
  have found : (after c cs).2 ≠ 0 := by
    intro none
    rw [none] at feed
    cases feed
  -- what reads the same up to the line feed as it does beyond is over before it
  have short : ∀ front rest, cs = front ++ '\n' :: rest → '\n' ∉ front → after c cs ≠ after c front := by
    intro front rest whole clear same
    have bound := after_le c front
    rw [same, whole, List.take_append_of_le_length bound] at feed
    exact clear (List.mem_of_mem_take feed)
  obtain ⟨front, rest, whole, clear⟩ := List.eq_append_cons_of_mem (List.mem_of_mem_take feed)
  by_cases special : IsSpecial c
  · rcases special with rfl | rfl | rfl | rfl
    · rw [after_quotation] at found ⊢
      exact ⟨quotation, endsWith_interpretedRest?.delimited found, by decide⟩
    · rw [after_backQuote] at found ⊢
      exact ⟨backQuote, (endsWith_upTo? _).delimited found, by decide⟩
    · rw [after_apostrophe] at found ⊢
      exact ⟨apostrophe, endsWith_runeRest?.delimited found, by decide⟩
    by_cases slashes : cs.head? = some '/'
    · rw [List.eq_cons_of_mem_head? slashes, after_slashes, Nat.add_comm 1, List.take_succ_cons,
        ← List.prefix_iff_eq_take.1 (List.takeWhile_prefix _)] at feed
      rcases List.mem_cons.1 feed with contrary | inside
      · cases contrary
      · exact absurd (List.mem_takeWhile_imp inside) (by decide)
    by_cases stars : cs.head? = some '*'
    · rw [List.eq_cons_of_mem_head? stars, after_star] at found ⊢
      cases outcome : blockCommentRest? cs.tail with
      | none =>
          rw [outcome] at found
          exact absurd rfl found
      | some count =>
          refine ⟨'/', ?_, by decide⟩
          have last := endsWith_blockCommentRest? _ _ outcome
          simp [delimited, List.getLast?_cons, last]
    · refine absurd ?_ (short front rest whole clear)
      rw [whole] at slashes stars ⊢
      exact after_feed_slash ⟨slashes, stars⟩
  · refine absurd ?_ (short front rest whole clear)
    rw [whole, after_append special (stopped_cons.2 (by decide))]

end Lexeme

end TraceWeave.Go
