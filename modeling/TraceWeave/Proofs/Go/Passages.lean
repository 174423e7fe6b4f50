import TraceWeave.Proofs.Go.Seams

/-!
Passages of a text and the lexemes they are read as. What stands behind a passage stays in sight, so passages can be
put together, and a passage is read alike in front of other texts where nothing at its end goes on.
-/
namespace TraceWeave.Go

/-- A lexeme by itself: what it is, and its text. -/
structure Symbol where
  kind : TokenKind
  text : String
deriving DecidableEq, Repr

def Token.symbol (token : Token) : Symbol := ⟨token.kind, token.text⟩

theorem Token.symbol_of_isMark {token : Token} {text : String} (mark : token.isMark text = true) :
    token.symbol = ⟨.mark, text⟩ := by
  simp only [isMark, Bool.and_eq_true, beq_iff_eq] at mark
  rw [symbol, mark.1, mark.2]

namespace Symbol

/-- Comments and the end of a text are no part of a program. -/
def isProgram (symbol : Symbol) : Bool := symbol.kind != .comment && symbol.kind != .eof

/-- All lexemes of some characters, the end last. -/
def all (cs : List Char) : List Symbol := (Token.listFrom 0 false cs).map Token.symbol

/-- The lexemes of a text that belong to the program. -/
def ofText (text : String) : List Symbol := (all text.toList).filter isProgram

theorem filter_nil : (all []).filter isProgram = [] := by
  rw [all, Token.listFrom]
  rfl

theorem filter_ofText (text : String) : (ofText text).filter isProgram = ofText text := by
  rw [ofText, List.filter_filter]
  exact List.filter_congr fun symbol _ => Bool.and_self _

end Symbol

namespace Lexeme

/-- Characters are read as some lexemes, with the characters behind them in sight. -/
inductive Scans : List Char → List Symbol → List Char → Prop where
  | nil (rest : List Char) : Scans [] [] rest
  | space {c : Char} {cs rest : List Char} {symbols : List Symbol} (is : isSpace c = true)
      (later : Scans cs symbols rest) : Scans (c :: cs) symbols rest
  | lexeme {c : Char} {cs rest : List Char} {symbols : List Symbol} {kind : TokenKind} {more : Nat}
      (solid : isSpace c = false) (found : after c (cs ++ rest) = (kind, more)) (fits : more ≤ cs.length)
      (later : Scans (cs.drop more) symbols rest) :
      Scans (c :: cs) (⟨kind, String.ofList (c :: cs.take more)⟩ :: symbols) rest

variable {cs cs' rest rest' : List Char} {symbols symbols' : List Symbol} {offset : Nat} {newLine : Bool}

theorem Scans.append (scans : Scans cs symbols (cs' ++ rest)) (scans' : Scans cs' symbols' rest) :
    Scans (cs ++ cs') (symbols ++ symbols') rest := by
  generalize whole : cs' ++ rest = both at scans
  induction scans with
  | nil => exact scans'
  | space is _ ih => exact .space is (ih whole)
  | @lexeme c cs _ symbols kind more solid found fits _ ih =>
      subst whole
      have taken : (cs ++ cs').take more = cs.take more := List.take_append_of_le_length fits
      rw [List.cons_append, List.cons_append, ← taken]
      refine .lexeme solid (by rwa [List.append_assoc]) (by rw [List.length_append]; omega) ?_
      rw [List.drop_append_of_le_length fits]
      exact ih rfl

/-- Where a text begins does not matter for its lexemes. -/
theorem symbol_listFrom (offset offset' : Nat) (newLine newLine' : Bool) (cs : List Char) :
    (Token.listFrom offset newLine cs).map Token.symbol = (Token.listFrom offset' newLine' cs).map Token.symbol := by
  fun_induction Token.listFrom offset newLine cs generalizing offset' newLine' with
  | case1 offset newLine =>
      rw [Token.listFrom]
      rfl
  | case2 offset newLine c rest space ih =>
      rw [Token.listFrom, if_pos space]
      exact ih _ _
  | case3 offset newLine c rest space kind more found lexeme stop ih =>
      rw [Token.listFrom, if_neg space, found, List.map_cons, ih]
      rfl

theorem Scans.symbols_eq (scans : Scans cs symbols rest) : Symbol.all (cs ++ rest) = symbols ++ Symbol.all rest := by
  induction scans with
  | nil => rfl
  | space is _ ih =>
      rw [List.cons_append, Symbol.all, Token.listFrom, if_pos is, ← ih]
      exact symbol_listFrom _ _ _ _ _
  | lexeme solid found fits _ ih =>
      rw [List.cons_append, Symbol.all, Token.listFrom, if_neg (by simp [solid]), found, List.cons_append, ← ih]
      simp only [List.map_cons, Token.symbol, List.take_append_of_le_length fits, List.drop_append_of_le_length fits]
      exact congrArg _ (symbol_listFrom _ _ _ _ _)

/-- Characters of a prefix that takes no more room than the text itself. -/
theorem take_le_of_byteCount {count : Nat} (bound : count ≤ (cs ++ rest).length)
    (size : Text.byteCount ((cs ++ rest).take count) ≤ Text.byteCount cs) : count ≤ cs.length := by
  by_contra long
  rw [List.take_append, List.take_of_length_le (by omega), Text.byteCount_append] at size
  rw [List.length_append] at bound
  cases rest with
  | nil =>
      rw [List.length_nil] at bound
      omega
  | cons d rest =>
      have room := d.utf8Size_pos
      obtain ⟨more, same⟩ : ∃ more, count - cs.length = more + 1 := ⟨count - cs.length - 1, by omega⟩
      rw [same, List.take_succ_cons, Text.byteCount_cons] at size
      omega

/-- The characters up to an offset that lies in no token. -/
theorem exists_scans (cs : List Char) (outside : ∀ token ∈ Token.listFrom offset newLine (cs ++ rest),
      ¬ (token.start < offset + Text.byteCount cs ∧ offset + Text.byteCount cs < token.stop)) :
    ∃ tokens newLine', Token.listFrom offset newLine (cs ++ rest) =
        tokens ++ Token.listFrom (offset + Text.byteCount cs) newLine' rest ∧
      Scans cs (tokens.map Token.symbol) rest ∧
      ∀ token ∈ tokens, token.start < token.stop ∧ offset ≤ token.start ∧ token.stop ≤ offset + Text.byteCount cs := by
  induction length : cs.length using Nat.strong_induction_on generalizing cs offset newLine with
  | _ length ih =>
      subst length
      cases cs with
      | nil => exact ⟨[], newLine, rfl, .nil rest, by simp⟩
      | cons c cs =>
          have room := c.utf8Size_pos
          rw [List.cons_append, Token.listFrom] at outside ⊢
          rw [Text.byteCount_cons, ← Nat.add_assoc] at outside ⊢
          split at outside
          · rename_i space
            rw [if_pos space]
            obtain ⟨tokens, newLine', whole, scans, inside⟩ := ih cs.length (by simp) cs outside rfl
            refine ⟨tokens, newLine', whole, .space space scans, fun token member => ?_⟩
            have bounds := inside token member
            omega
          · rename_i solid
            rw [if_neg solid]
            have found : after c (cs ++ rest) = ((after c (cs ++ rest)).1, (after c (cs ++ rest)).2) := rfl
            have known := after_le c (cs ++ rest)
            generalize (after c (cs ++ rest)).1 = kind at found
            generalize (after c (cs ++ rest)).2 = more at found known
            rw [found] at outside ⊢
            dsimp only at outside ⊢
            obtain ⟨here, later⟩ := List.forall_mem_cons.1 outside
            rw [Text.byteCount_cons] at here later
            have fits : more ≤ cs.length := take_le_of_byteCount known (by dsimp only at here; omega)
            rw [List.drop_append_of_le_length fits] at later ⊢
            have parts : Text.byteCount cs = Text.byteCount (cs.take more) + Text.byteCount (cs.drop more) := by
              rw [← Text.byteCount_append, List.take_append_drop]
            rw [List.take_append_of_le_length fits] at later ⊢
            have reach : offset + (c.utf8Size + Text.byteCount (cs.take more)) + Text.byteCount (cs.drop more) =
                offset + c.utf8Size + Text.byteCount cs := by omega
            obtain ⟨tokens, newLine', whole, scans, inside⟩ := ih (cs.drop more).length
              (by rw [List.length_drop, List.length_cons]; omega) (cs.drop more) (by rwa [reach]) rfl
            rw [reach] at whole inside
            refine ⟨_ :: tokens, newLine', congrArg (_ :: ·) whole, ?_, ?_⟩
            · exact .lexeme (Bool.not_eq_true _ ▸ solid) found fits scans
            · refine List.forall_mem_cons.2 ⟨?_, fun token member => ?_⟩
              · dsimp only
                rw [Text.byteCount_cons]
                omega
              · have bounds := inside token member
                omega

/-- A passage before another text, if nothing at its end goes on there. -/
theorem Scans.before (scans : Scans cs symbols rest) (stopped : Stopped rest) (stopped' : Stopped rest')
    (sound : ∀ symbol ∈ symbols, symbol.kind ≠ .bad)
    (last : ∀ symbol ∈ symbols.getLast?, (symbol.kind = .comment → rest ≠ [] ∧ rest.head? ≠ some '\n') ∧
      (symbol.text = "/" → rest'.head? ≠ some '/')) : Scans cs symbols rest' := by
  induction scans with
  | nil => exact .nil _
  | space is _ ih => exact .space is (ih stopped sound last)
  | @lexeme c cs rest symbols kind more solid found fits scans ih =>
      obtain ⟨here, later⟩ := List.forall_mem_cons.1 sound
      have rest := ih stopped later fun symbol member => last symbol (by
        cases symbols with
        | nil => cases member
        | cons other symbols => rwa [List.getLast?_cons_cons])
      refine .lexeme solid ?_ fits rest
      -- a lexeme that takes all that is left is the last one
      have final : more = cs.length → symbols = [] := by
        intro all
        rw [List.drop_of_length_le (by omega)] at scans
        cases scans
        rfl
      by_cases comment : kind = .comment
      · subst comment
        refine after_comment found fits (fun all => ?_) _
        rw [final all] at last
        exact (last _ rfl).1 rfl
      · refine after_program stopped stopped' found fits here comment fun slash none => ?_
        subst none slash
        rw [final (by simpa using fits)] at last
        exact (last _ rfl).2 (by simp)

/-- The end of a text is behind every passage. -/
theorem Scans.kind_ne_eof (scans : Scans cs symbols rest) : ∀ symbol ∈ symbols, symbol.kind ≠ .eof := by
  induction scans with
  | nil => simp
  | space _ _ ih => exact ih
  | lexeme _ found _ _ ih =>
      refine List.forall_mem_cons.2 ⟨fun eof => ?_, ih⟩
      exact kind_after_ne_eof _ _ ((congrArg Prod.fst found).trans eof)

/-- Comments and white space before a lexeme, in front of any other text. -/
theorem Scans.gap {c : Char} (scans : Scans cs symbols (c :: rest)) (solid : isSpace c = false)
    (comments : ∀ symbol ∈ symbols, symbol.kind = .comment) (rest' : List Char) : Scans cs symbols rest' := by
  generalize whole : c :: rest = both at scans
  induction scans with
  | nil => exact .nil _
  | space is _ ih => exact .space is (ih comments whole)
  | lexeme solid' found fits _ ih =>
      subst whole
      obtain ⟨here, later⟩ := List.forall_mem_cons.1 comments
      obtain rfl : _ = TokenKind.comment := here
      refine .lexeme solid' (after_comment found fits (fun _ => ⟨by simp, ?_⟩) _) fits (ih later rfl)
      rintro same
      rw [List.head?_cons, Option.some.injEq] at same
      rw [same] at solid
      cases solid

/-- A character that begins no number. -/
theorem number_of_plain {c : Char} (digit : c.isDigit = false) (apart : c ∉ ['0', '.', 'i']) (cs : List Char) :
    (number (c :: cs)).2 = 0 := by
  simp only [List.mem_cons, List.not_mem_nil, or_false, not_or] at apart
  obtain ⟨zero, dot, letter⟩ := apart
  have run : digits Char.isDigit (c :: cs) = 0 := by simp [digits, digit]
  have whole : int (c :: cs) = 0 := by simp [int, run, zero]
  have float : decimalFloat (c :: cs) = 0 := by simp [decimalFloat, run, dot]
  have hex : hexFloat (c :: cs) = 0 := by simp [hexFloat, zero]
  simp [number, whole, float, hex, run, letter]

/-- A character that is a mark by itself, with what stands behind it. -/
theorem after_mark {c : Char} (plain : ¬ IsSpecial c) (other : Text.startsWord c = false) (digit : c.isDigit = false)
    (apart : c ∉ ['0', '.', 'i']) {cs : List Char} (one : mark (c :: cs) = 1) : after c cs = (.mark, 0) := by
  rw [after_of_plain plain, other, if_neg Bool.false_ne_true, number_of_plain digit apart, if_pos rfl, one,
    if_neg Nat.one_ne_zero]

/-- The marks of a list. -/
theorem after_listMark {c : Char} (is : c ∈ ['(', ')', ',']) (cs : List Char) : after c cs = (.mark, 0) := by
  have known : ∀ c ∈ ['(', ')', ','], ¬ IsSpecial c ∧ Text.startsWord c = false ∧ c.isDigit = false ∧
      c ∉ ['0', '.', 'i'] := by
    unfold IsSpecial
    exact List.all_iff_forall_prop.1 (by decide +kernel)
  obtain ⟨plain, other, digit, apart⟩ := known c is
  refine after_mark plain other digit apart ?_
  simp only [List.mem_cons, List.not_mem_nil, or_false] at is
  rcases is with rfl | rfl | rfl <;> rfl

/-- A star that no equals sign follows. -/
theorem scans_star (apart : rest.head? ≠ some '=') : Scans ['*'] [⟨.mark, "*"⟩] rest := by
  have one : mark ('*' :: ([] ++ rest)) = 1 := by
    cases rest with
    | nil => rfl
    | cons c rest =>
        have other : '=' ≠ c := fun same => apart (congrArg some same.symm)
        simp [mark, marks, List.isPrefixOf, other]
  have found := after_mark (by unfold IsSpecial; decide) (by decide +kernel) (by decide) (by decide) one
  exact .lexeme (by decide) found (Nat.zero_le _) (.nil _)

theorem scans_all (cs : List Char) : ∃ symbols, Scans cs symbols [] ∧ Symbol.all cs = symbols ++ [⟨.eof, ""⟩] := by
  have cut : Text.Cut (String.ofList cs) 0 [] (cs ++ []) := by
    rw [List.append_nil]
    exact ⟨String.toList_ofList, rfl⟩
  have ordered : Ordered (fun offset => Text.isBoundary (String.ofList cs) offset = true)
      (Text.size (String.ofList cs)) (Token.listFrom 0 false (cs ++ [])) := (Token.listFrom_ordered cut).1
  obtain ⟨tokens, newLine, split, scans, _⟩ := exists_scans cs (fun token member => by
    have bound := ((Token.ordered_iff.1 ordered).1 token member).2
    rw [Text.size_ofList] at bound
    omega)
  rw [List.append_nil] at split
  refine ⟨_, scans, ?_⟩
  rw [Symbol.all, split, Token.listFrom, List.map_append]
  rfl

end Lexeme

/-- A text to put between others: it has no comments, nothing in it is out of place, and it does not end with a
slash, with which a comment could begin. -/
structure IsPhrase (text : String) : Prop where
  sound : ∀ symbol ∈ Symbol.all text.toList, symbol.kind ≠ .comment ∧ symbol.kind ≠ .bad
  ends : ∀ symbol ∈ (Symbol.ofText text).getLast?, symbol.text ≠ "/"

theorem ofText_eq {text : String} {symbols : List Symbol} {rest : List Char} (scans : Lexeme.Scans text.toList symbols rest)
    (all : Symbol.all text.toList = symbols ++ [⟨.eof, ""⟩]) (sound : ∀ symbol ∈ symbols, symbol.kind ≠ .comment) :
    Symbol.ofText text = symbols := by
  rw [Symbol.ofText, all, List.filter_append, List.filter_eq_self.2]
  · exact List.append_nil _
  · intro symbol member
    simp [Symbol.isProgram, scans.kind_ne_eof symbol member, sound symbol member]

/-- A phrase reads alike before every stop. -/
theorem IsPhrase.scans {text : String} {rest : List Char} (phrase : IsPhrase text) (stopped : Lexeme.Stopped rest) :
    Lexeme.Scans text.toList (Symbol.ofText text) rest := by
  obtain ⟨symbols, scans, whole⟩ := Lexeme.scans_all text.toList
  have fine : ∀ symbol ∈ symbols, symbol.kind ≠ .comment ∧ symbol.kind ≠ .bad := fun symbol member =>
    phrase.sound symbol (whole ▸ List.mem_append_left _ member)
  have kept := ofText_eq scans whole fun symbol member => (fine symbol member).1
  have ends := phrase.ends
  rw [kept] at ends ⊢
  refine scans.before Lexeme.stopped_nil stopped (fun symbol member => (fine symbol member).2) fun symbol last =>
    ⟨fun comment => ?_, fun slash => absurd slash (ends symbol last)⟩
  exact absurd comment (fine symbol (List.mem_of_getLast? last)).1

/-- What the lexemes of a text say of it. -/
theorem isPhrase_of_scans {text : String} {symbols : List Symbol} (scans : Lexeme.Scans text.toList symbols [])
    (sound : ∀ symbol ∈ symbols, symbol.kind ≠ .comment ∧ symbol.kind ≠ .bad)
    (ends : ∀ symbol ∈ symbols.getLast?, symbol.text ≠ "/") : IsPhrase text ∧ Symbol.ofText text = symbols := by
  have all : Symbol.all text.toList = symbols ++ [⟨.eof, ""⟩] := by
    have whole := scans.symbols_eq
    rw [List.append_nil] at whole
    rw [whole, Symbol.all, Token.listFrom]
    rfl
  have kept := ofText_eq scans all fun symbol member => (sound symbol member).1
  refine ⟨⟨fun symbol member => ?_, kept ▸ ends⟩, kept⟩
  rw [all] at member
  rcases List.mem_append.1 member with here | last
  · exact sound symbol here
  · rw [List.mem_singleton.1 last]
    decide

/-- A text that is read as one word. -/
structure IsWord (text : String) : Prop where
  filled : text ≠ ""
  starts : ∀ c ∈ text.toList.head?, Text.startsWord c = true
  continues : ∀ c ∈ text.toList, Text.continuesWord c = true

theorem isWord_of_all {text : String} (filled : text ≠ "") (starts : text.toList.head?.all Text.startsWord = true)
    (continues : text.toList.all Text.continuesWord = true) : IsWord text :=
  ⟨filled, fun c first => by rwa [Option.mem_def.1 first] at starts, List.all_eq_true.1 continues⟩

theorem IsWord.head_ne {text : String} (word : IsWord text) {c : Char} (other : Text.startsWord c = false)
    (rest : List Char) : (text.toList ++ rest).head? ≠ some c := by
  obtain ⟨filled, starts, _⟩ := word
  cases chars : text.toList with
  | nil => exact absurd (String.toList_inj.1 chars) filled
  | cons d ds =>
      rw [chars] at starts
      rintro ⟨⟩
      rw [starts _ rfl] at other
      cases other

theorem IsWord.scans {text : String} (word : IsWord text) {rest : List Char}
    (ends : ∀ c ∈ rest.head?, Text.continuesWord c = false) : Lexeme.Scans text.toList [⟨.word, text⟩] rest := by
  obtain ⟨filled, starts, continues⟩ := word
  cases chars : text.toList with
  | nil => exact absurd (String.toList_inj.1 chars) filled
  | cons c cs =>
      rw [chars] at starts continues
      have first := starts c rfl
      have solid : Lexeme.isSpace c = false := by
        have apart : Lexeme.Apart Text.startsWord := List.all_iff_forall_prop.1 (by decide +kernel)
        by_contra space
        rw [apart c (Lexeme.mem_stopChars_of_isSpace (Bool.of_not_eq_false space))] at first
        cases first
      have none : rest.takeWhile Text.continuesWord = [] := by
        cases rest with
        | nil => rfl
        | cons d rest => rw [List.takeWhile_cons, ends d rfl]; rfl
      have found : Lexeme.after c (cs ++ rest) = (.word, cs.length) := by
        rw [Lexeme.after, if_pos first, List.takeWhile_append_of_pos (List.forall_mem_cons.1 continues).2, none,
          List.append_nil]
      have whole : text = String.ofList (c :: cs.take cs.length) := by
        rw [List.take_length, ← chars, String.ofList_toList]
      rw [whole]
      exact .lexeme solid found (Nat.le_refl _) (by rw [List.drop_length]; exact .nil _)

end TraceWeave.Go
