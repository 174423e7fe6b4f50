import Mathlib.Data.Bool.AllAny
import TraceWeave.Proofs.Go.Lexemes

/-!
Numbers and what stands behind them. No word, number or mark goes on with white space, a comma, a parenthesis or a
slash, so what stands behind one of these does not change which number is read in front of it.
-/
namespace TraceWeave.Go

namespace Lexeme

/-- The characters that no word, number or mark goes on with. -/
def stopChars : List Char := ['\t', '\n', Char.ofNat 11, Char.ofNat 12, '\r', ' ', ',', '(', ')', '/']

/-- Nothing, or a text that no word, number or mark before it goes on with. -/
def Stopped (rest : List Char) : Prop := ∀ c ∈ rest.head?, c ∈ stopChars

theorem stopped_nil : Stopped [] := by simp [Stopped]

theorem stopped_cons {c : Char} {rest : List Char} : Stopped (c :: rest) ↔ c ∈ stopChars := by simp [Stopped]

theorem mem_stopChars_of_isSpace {c : Char} (space : isSpace c = true) : c ∈ stopChars := by
  have codes : c.toNat ∈ [9, 10, 11, 12, 13, 32] := by
    simp only [isSpace, Bool.or_eq_true, Bool.and_eq_true, decide_eq_true_eq, beq_iff_eq] at space
    rcases space with rfl | bounds
    · decide
    · simp only [List.mem_cons, List.not_mem_nil, or_false]
      omega
  have all : ∀ n ∈ [9, 10, 11, 12, 13, 32], Char.ofNat n ∈ stopChars := by decide
  rw [← Char.ofNat_toNat c]
  exact all _ codes

variable {digit : Char → Bool} {cs rest : List Char} {c : Char}

/-- No stop is a digit. -/
def Apart (digit : Char → Bool) : Prop := ∀ c ∈ stopChars, digit c = false

theorem apart_isDigit : Apart Char.isDigit := List.all_iff_forall_prop.1 (by decide)

theorem apart_isHexDigit : Apart isHexDigit := List.all_iff_forall_prop.1 (by decide)

theorem apart_isOctalDigit : Apart isOctalDigit := List.all_iff_forall_prop.1 (by decide)

theorem apart_isBinaryDigit : Apart isBinaryDigit := List.all_iff_forall_prop.1 (by decide)

theorem apart_continuesWord : Apart Text.continuesWord := List.all_iff_forall_prop.1 (by decide +kernel)

theorem moreDigits_append (apart : Apart digit) (stopped : Stopped rest) :
    moreDigits digit (cs ++ rest) = moreDigits digit cs := by
  have low : ∀ c ∈ stopChars, (c == '_') = false := List.all_iff_forall_prop.1 (by decide)
  fun_induction moreDigits digit cs with
  | case1 =>
      cases rest with
      | nil => rfl
      | cons c rest =>
          have stop := stopped_cons.1 stopped
          rw [List.nil_append, moreDigits.eq_def]
          simp [apart c stop, low c stop]
  | case2 c cs is ih =>
      rw [List.cons_append, moreDigits.eq_def]
      simp only [is, if_true, ih]
  | case3 c not low' =>
      rw [List.cons_append, moreDigits.eq_def]
      cases rest with
      | nil => simp [not, low']
      | cons c rest =>
          have stop := stopped_cons.1 stopped
          simp [not, low', apart c stop]
  | case4 c not low' d ds is ih =>
      rw [List.cons_append, moreDigits.eq_def]
      simp [not, low', is, ih]
  | case5 c not low' d ds is =>
      rw [List.cons_append, moreDigits.eq_def]
      simp [not, low', is]
  | case6 c cs not low' =>
      rw [List.cons_append, moreDigits.eq_def]
      simp [not, low']

theorem digits_append (apart : Apart digit) (stopped : Stopped rest) :
    digits digit (cs ++ rest) = digits digit cs := by
  cases cs with
  | nil =>
      cases rest with
      | nil => rfl
      | cons c rest => simp [digits, apart c (stopped_cons.1 stopped)]
  | cons c cs => simp only [List.cons_append, digits, moreDigits_append apart stopped]

theorem looseDigits_append (apart : Apart digit) (stopped : Stopped rest) :
    looseDigits digit (cs ++ rest) = looseDigits digit cs := by
  have low : '_' ∉ stopChars := by decide
  have plain : ∀ c cs, c ≠ '_' → looseDigits digit (c :: cs) = digits digit (c :: cs) := by
    intro c cs other
    rw [looseDigits]
    rintro _ ⟨⟩
    exact other rfl
  cases cs with
  | nil =>
      cases rest with
      | nil => rfl
      | cons c rest =>
          have stop := stopped_cons.1 stopped
          rw [List.nil_append, plain c rest (fun same => low (same ▸ stop)), digits, if_neg (by simp [apart c stop])]
          rfl
  | cons c cs =>
      by_cases same : c = '_'
      · subst same
        simp only [List.cons_append, looseDigits, digits_append apart stopped]
      · rw [List.cons_append, plain c _ same, plain c _ same, ← List.cons_append, digits_append apart stopped]

theorem moreDigits_le (digit : Char → Bool) (cs : List Char) : moreDigits digit cs ≤ cs.length := by
  fun_induction moreDigits digit cs <;> simp_all <;> omega

theorem digits_le (digit : Char → Bool) (cs : List Char) : digits digit cs ≤ cs.length := by
  cases cs with
  | nil => exact Nat.le_refl _
  | cons c cs =>
      have bound := moreDigits_le digit cs
      rw [digits, List.length_cons]
      split <;> omega

theorem looseDigits_le (digit : Char → Bool) (cs : List Char) : looseDigits digit cs ≤ cs.length := by
  unfold looseDigits
  split
  · rename_i cs
    have bound := digits_le digit cs
    rw [List.length_cons]
    split <;> omega
  · exact digits_le digit _

/-- Behind the front of a text. -/
theorem drop_append_stop {count : Nat} (bound : count ≤ cs.length) : (cs ++ rest).drop count = cs.drop count ++ rest :=
  List.drop_append_of_le_length bound

/-- Length of a sign. -/
def sign : List Char → Nat
  | '+' :: _ => 1
  | '-' :: _ => 1
  | _ => 0

theorem sign_le (cs : List Char) : sign cs ≤ cs.length := by
  unfold sign
  split <;> simp

theorem sign_of_stop (stop : c ∈ stopChars) : sign (c :: cs) = 0 := by
  have plus : '+' ∉ stopChars := by decide
  have minus : '-' ∉ stopChars := by decide
  unfold sign
  split
  · rename_i same
    exact absurd ((List.cons.inj same).1 ▸ stop) plus
  · rename_i same
    exact absurd ((List.cons.inj same).1 ▸ stop) minus
  · rfl

theorem sign_append (stopped : Stopped rest) : sign (cs ++ rest) = sign cs := by
  cases cs with
  | nil =>
      cases rest with
      | nil => rfl
      | cons c rest => exact sign_of_stop (stopped_cons.1 stopped)
  | cons c cs =>
      unfold sign
      simp only [List.cons_append]
      split
      · rename_i same
        rw [(List.cons.inj same).1]
        rfl
      · rename_i same
        rw [(List.cons.inj same).1]
        rfl
      · rename_i plus minus
        split
        · rename_i same
          exact absurd (congrArg (· ++ rest) same) (plus _)
        · rename_i same
          exact absurd (congrArg (· ++ rest) same) (minus _)
        · rfl

theorem exponent_cons (lower upper c : Char) (cs : List Char) : exponent lower upper (c :: cs) =
    if c == lower || c == upper then
      if digits Char.isDigit (cs.drop (sign cs)) = 0 then 0 else 1 + sign cs + digits Char.isDigit (cs.drop (sign cs))
    else 0 := rfl

theorem exponent_append {lower upper : Char} (apart : lower ∉ stopChars ∧ upper ∉ stopChars) (stopped : Stopped rest) :
    exponent lower upper (cs ++ rest) = exponent lower upper cs := by
  cases cs with
  | nil =>
      cases rest with
      | nil => rfl
      | cons c rest =>
          have stop := stopped_cons.1 stopped
          have other : c ≠ lower ∧ c ≠ upper := ⟨fun same => apart.1 (same ▸ stop), fun same => apart.2 (same ▸ stop)⟩
          rw [List.nil_append, exponent_cons, if_neg (by simp [other])]
          rfl
  | cons c cs =>
      rw [List.cons_append, exponent_cons, exponent_cons, sign_append stopped, drop_append_stop (sign_le cs),
        digits_append apart_isDigit stopped]

/-- Length of an integer literal with a letter for its base; zero without one. -/
def based (letters : List Char) (digit : Char → Bool) : List Char → Nat
  | '0' :: c :: rest =>
      if letters.contains c && decide (0 < looseDigits digit rest) then 2 + looseDigits digit rest else 0
  | _ => 0

/-- Length of an integer literal with a zero before octal digits; zero without one. -/
def octal : List Char → Nat
  | '0' :: rest => if looseDigits isOctalDigit rest = 0 then 0 else 1 + looseDigits isOctalDigit rest
  | _ => 0

/-- Length of a decimal integer literal. -/
def decimal : List Char → Nat
  | '0' :: _ => 1
  | cs => digits Char.isDigit cs

theorem int_eq (cs : List Char) : int cs = [based ['b', 'B'] isBinaryDigit cs, based ['o', 'O'] isOctalDigit cs,
    based ['x', 'X'] isHexDigit cs, octal cs, decimal cs].foldl max 0 := by
  rcases cs with _ | ⟨c, cs⟩ 
  · rfl
  · by_cases zero : c = '0'
    · subst zero
      rcases cs with _ | ⟨d, cs⟩ <;> rfl
    · simp [int, based, octal, decimal, zero]

theorem based_append {letters : List Char} (apart : Apart digit) (other : ∀ c ∈ stopChars, letters.contains c = false)
    (stopped : Stopped rest) : based letters digit (cs ++ rest) = based letters digit cs := by
  have head : ∀ c cs, c ≠ '0' → based letters digit (c :: cs) = 0 := by
    intro c cs zero
    simp [based, zero]
  have zero : '0' ∉ stopChars := by decide
  rcases cs with _ | ⟨c, cs⟩
  · rcases rest with _ | ⟨c, rest⟩
    · rfl
    · rw [List.nil_append, head c rest fun same => zero (same ▸ stopped_cons.1 stopped)]
      rfl
  by_cases same : c = '0'
  · subst same
    rcases cs with _ | ⟨d, cs⟩
    · rcases rest with _ | ⟨d, rest⟩
      · rfl
      · simp only [List.cons_append, List.nil_append, based, other d (stopped_cons.1 stopped), Bool.false_and,
          Bool.false_eq_true, if_false]
    · simp only [List.cons_append, based, looseDigits_append apart stopped]
  · rw [List.cons_append, head c _ same, head c _ same]

theorem octal_append (stopped : Stopped rest) : octal (cs ++ rest) = octal cs := by
  have head : ∀ c cs, c ≠ '0' → octal (c :: cs) = 0 := by
    intro c cs zero
    simp [octal, zero]
  have zero : '0' ∉ stopChars := by decide
  rcases cs with _ | ⟨c, cs⟩
  · rcases rest with _ | ⟨c, rest⟩
    · rfl
    · rw [List.nil_append, head c rest fun same => zero (same ▸ stopped_cons.1 stopped)]
      rfl
  by_cases same : c = '0'
  · subst same
    simp only [List.cons_append, octal, looseDigits_append apart_isOctalDigit stopped]
  · rw [List.cons_append, head c _ same, head c _ same]

theorem decimal_append (stopped : Stopped rest) : decimal (cs ++ rest) = decimal cs := by
  have head : ∀ c cs, c ≠ '0' → decimal (c :: cs) = digits Char.isDigit (c :: cs) := by
    intro c cs zero
    simp [decimal, zero]
  have zero : '0' ∉ stopChars := by decide
  rcases cs with _ | ⟨c, cs⟩
  · rcases rest with _ | ⟨c, rest⟩
    · rfl
    · rw [List.nil_append, head c rest fun same => zero (same ▸ stopped_cons.1 stopped)]
      have none : digits Char.isDigit ([] ++ c :: rest) = digits Char.isDigit [] := digits_append apart_isDigit stopped
      exact none
  by_cases same : c = '0'
  · subst same
    rfl
  · rw [List.cons_append, head c _ same, head c _ same, ← List.cons_append, digits_append apart_isDigit stopped]

theorem int_append (stopped : Stopped rest) : int (cs ++ rest) = int cs := by
  rw [int_eq, int_eq, based_append apart_isBinaryDigit (List.all_iff_forall_prop.1 (by decide)) stopped,
    based_append apart_isOctalDigit (List.all_iff_forall_prop.1 (by decide)) stopped,
    based_append apart_isHexDigit (List.all_iff_forall_prop.1 (by decide)) stopped,
    octal_append stopped, decimal_append stopped]

theorem based_le (letters : List Char) (digit : Char → Bool) (cs : List Char) : based letters digit cs ≤ cs.length := by
  unfold based
  split
  · rename_i c rest
    have bound := looseDigits_le digit rest
    simp only [List.length_cons]
    split <;> omega
  · exact Nat.zero_le _

theorem octal_le (cs : List Char) : octal cs ≤ cs.length := by
  unfold octal
  split
  · rename_i rest
    have bound := looseDigits_le isOctalDigit rest
    simp only [List.length_cons]
    split <;> omega
  · exact Nat.zero_le _

theorem decimal_le (cs : List Char) : decimal cs ≤ cs.length := by
  unfold decimal
  split
  · simp
  · exact digits_le _ _

theorem int_le (cs : List Char) : int cs ≤ cs.length := by
  have binary := based_le ['b', 'B'] isBinaryDigit cs
  have eight := based_le ['o', 'O'] isOctalDigit cs
  have hex := based_le ['x', 'X'] isHexDigit cs
  have zero := octal_le cs
  have ten := decimal_le cs
  simp only [int_eq, List.foldl_cons, List.foldl_nil]
  omega

theorem exponent_le (lower upper : Char) (cs : List Char) : exponent lower upper cs ≤ cs.length := by
  cases cs with
  | nil => exact Nat.le_refl _
  | cons c cs =>
      have bound := digits_le Char.isDigit (cs.drop (sign cs))
      have size := sign_le cs
      rw [List.length_drop] at bound
      rw [exponent_cons, List.length_cons]
      split
      · split <;> omega
      · exact Nat.zero_le _

/-- Length of a decimal float literal, from the end of its whole part on. -/
def decimalTail (whole : Nat) : List Char → Nat
  | '.' :: rest =>
      let part := digits Char.isDigit rest
      if whole = 0 && part = 0 then 0 else whole + 1 + part + exponent 'e' 'E' (rest.drop part)
  | rest => if whole = 0 || exponent 'e' 'E' rest = 0 then 0 else whole + exponent 'e' 'E' rest

theorem decimalFloat_eq (cs : List Char) :
    decimalFloat cs = decimalTail (digits Char.isDigit cs) (cs.drop (digits Char.isDigit cs)) := rfl

theorem decimalTail_append (whole : Nat) (stopped : Stopped rest) :
    decimalTail whole (cs ++ rest) = decimalTail whole cs := by
  have apart : 'e' ∉ stopChars ∧ 'E' ∉ stopChars := by decide
  have head : ∀ cs : List Char, cs.head? ≠ some '.' → decimalTail whole cs =
      if whole = 0 || exponent 'e' 'E' cs = 0 then 0 else whole + exponent 'e' 'E' cs := by
    intro cs other
    unfold decimalTail
    split
    · exact absurd rfl other
    · rfl
  have dot : '.' ∉ stopChars := by decide
  rcases cs with _ | ⟨c, cs⟩
  · have none : exponent 'e' 'E' ([] ++ rest) = exponent 'e' 'E' [] := exponent_append apart stopped
    rw [head [] (by simp), head ([] ++ rest) fun same => dot (stopped _ (Option.mem_def.2 same)), none]
  by_cases same : c = '.'
  · subst same
    simp only [List.cons_append, decimalTail, digits_append apart_isDigit stopped, drop_append_stop (digits_le _ _),
      exponent_append apart stopped]
  · rw [List.cons_append, head _ (by simp [same]), head _ (by simp [same]), ← List.cons_append,
      exponent_append apart stopped]

theorem decimalFloat_append (stopped : Stopped rest) : decimalFloat (cs ++ rest) = decimalFloat cs := by
  rw [decimalFloat_eq, decimalFloat_eq, digits_append apart_isDigit stopped, drop_append_stop (digits_le _ _),
    decimalTail_append _ stopped]

theorem decimalFloat_le (cs : List Char) : decimalFloat cs ≤ cs.length := by
  have bound := digits_le Char.isDigit cs
  have size : (cs.drop (digits Char.isDigit cs)).length = cs.length - digits Char.isDigit cs := List.length_drop
  rw [decimalFloat_eq]
  generalize cs.drop (digits Char.isDigit cs) = tail at size
  unfold decimalTail
  split
  · rename_i rest
    have part := digits_le Char.isDigit rest
    have power := exponent_le 'e' 'E' (rest.drop (digits Char.isDigit rest))
    rw [List.length_drop] at power
    rw [List.length_cons] at size
    dsimp only
    split <;> omega
  · have power := exponent_le 'e' 'E' tail
    split <;> omega

/-- Length of the digits of a hexadecimal float literal before its exponent, from the end of the whole part on. -/
def hexMantissa (whole : Nat) : List Char → Nat
  | '.' :: rest =>
      let part := digits isHexDigit rest
      if whole = 0 && part = 0 then 0 else whole + 1 + part
  | _ => whole

theorem hexFloat_cons (c : Char) (cs : List Char) : hexFloat ('0' :: c :: cs) =
    if c == 'x' || c == 'X' then
      let whole := looseDigits isHexDigit cs
      let mantissa := hexMantissa whole (cs.drop whole)
      let power := exponent 'p' 'P' (cs.drop mantissa)
      if mantissa = 0 || power = 0 then 0 else 2 + mantissa + power
    else 0 := rfl

theorem hexMantissa_append (whole : Nat) (stopped : Stopped rest) :
    hexMantissa whole (cs ++ rest) = hexMantissa whole cs := by
  have head : ∀ cs : List Char, cs.head? ≠ some '.' → hexMantissa whole cs = whole := by
    intro cs other
    unfold hexMantissa
    split
    · exact absurd rfl other
    · rfl
  have dot : '.' ∉ stopChars := by decide
  rcases cs with _ | ⟨c, cs⟩
  · rw [head [] (by simp), head ([] ++ rest) fun same => dot (stopped _ (Option.mem_def.2 same))]
  by_cases same : c = '.'
  · subst same
    simp only [List.cons_append, hexMantissa, digits_append apart_isHexDigit stopped]
  · rw [List.cons_append, head _ (by simp [same]), head _ (by simp [same])]

theorem hexMantissa_le {whole : Nat} (bound : whole ≤ cs.length) : hexMantissa whole (cs.drop whole) ≤ cs.length := by
  have size : (cs.drop whole).length = cs.length - whole := List.length_drop
  generalize cs.drop whole = tail at size
  unfold hexMantissa
  split
  · rename_i rest
    have part := digits_le isHexDigit rest
    rw [List.length_cons] at size
    dsimp only
    split <;> omega
  · exact bound

theorem hexFloat_append (stopped : Stopped rest) : hexFloat (cs ++ rest) = hexFloat cs := by
  have apart : 'p' ∉ stopChars ∧ 'P' ∉ stopChars := by decide
  have head : ∀ c cs, c ≠ '0' → hexFloat (c :: cs) = 0 := by
    intro c cs zero
    simp [hexFloat, zero]
  have zero : '0' ∉ stopChars := by decide
  have letters : ∀ c ∈ stopChars, (c == 'x' || c == 'X') = false := List.all_iff_forall_prop.1 (by decide)
  rcases cs with _ | ⟨c, cs⟩
  · rcases rest with _ | ⟨c, rest⟩
    · rfl
    · rw [List.nil_append, head c rest fun same => zero (same ▸ stopped_cons.1 stopped)]
      rfl
  by_cases same : c = '0'
  · subst same
    rcases cs with _ | ⟨d, cs⟩
    · rcases rest with _ | ⟨d, rest⟩
      · rfl
      · simp only [List.cons_append, List.nil_append, hexFloat_cons, letters d (stopped_cons.1 stopped),
          Bool.false_eq_true, if_false]
        rfl
    · have bound := looseDigits_le isHexDigit cs
      simp only [List.cons_append, hexFloat_cons, looseDigits_append apart_isHexDigit stopped, drop_append_stop bound,
        hexMantissa_append _ stopped, drop_append_stop (hexMantissa_le bound), exponent_append apart stopped]
  · rw [List.cons_append, head c _ same, head c _ same]

theorem hexFloat_le (cs : List Char) : hexFloat cs ≤ cs.length := by
  rcases cs with _ | ⟨c, _ | ⟨d, cs⟩⟩
  · exact Nat.le_refl _
  · simp [hexFloat]
  by_cases zero : c = '0'
  · subst zero
    have bound := hexMantissa_le (looseDigits_le isHexDigit cs)
    rw [hexFloat_cons]
    dsimp only
    generalize hexMantissa _ _ = mantissa at bound
    have power := exponent_le 'p' 'P' (cs.drop mantissa)
    rw [List.length_drop] at power
    simp only [List.length_cons]
    split
    · split <;> omega
    · exact Nat.zero_le _
  · simp [hexFloat, zero]

theorem number_append (stopped : Stopped rest) : number (cs ++ rest) = number cs := by
  have letter : 'i' ∉ stopChars := by decide
  have bound : max (max (int cs) (max (decimalFloat cs) (hexFloat cs))) (digits Char.isDigit cs) ≤ cs.length := by
    have whole := int_le cs
    have float := decimalFloat_le cs
    have hex := hexFloat_le cs
    have run := digits_le Char.isDigit cs
    omega
  simp only [number, int_append stopped, decimalFloat_append stopped, hexFloat_append stopped,
    digits_append apart_isDigit stopped, drop_append_stop bound]
  generalize cs.drop _ = tail
  cases tail with
  | nil =>
      rcases rest with _ | ⟨c, rest⟩
      · rfl
      · rw [List.nil_append]
        split
        · rename_i same
          exact absurd ((List.cons.inj same).1 ▸ stopped_cons.1 stopped) letter
        · rfl
  | cons d tail =>
      by_cases same : d = 'i'
      · subst same
        rfl
      · simp [same]

theorem number_le (cs : List Char) : (number cs).2 ≤ cs.length := by
  have whole := int_le cs
  have float := decimalFloat_le cs
  have hex := hexFloat_le cs
  have run := digits_le Char.isDigit cs
  unfold number
  dsimp only
  split
  · rename_i others behind
    have size := congrArg List.length behind
    rw [List.length_drop, List.length_cons] at size
    split
    · exact Nat.zero_le _
    · dsimp only
      omega
  · split <;> dsimp only <;> omega

end Lexeme

end TraceWeave.Go
