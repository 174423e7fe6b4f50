import Mathlib.Data.List.Basic
import Mathlib.Data.String.Basic
import TraceWeave.Glob
import TraceWeave.Proofs.Disk

/-!
Globs. Paths are matched byte by byte, but no character other than the slash has the byte of a slash: what a
glob leaves of the bytes of a path is told segment by segment.
-/
namespace TraceWeave

namespace Glob

/-! Bytes. -/

theorem loop_toList (array : ByteArray) (index : Nat) (front : List UInt8) :
    ByteArray.toList.loop array index front = front.reverse ++ array.data.toList.drop index := by
  fun_induction ByteArray.toList.loop array index front with
  | case1 index front inside ih =>
      have bound : index < array.data.toList.length := by simpa using inside
      rw [ih, List.drop_eq_getElem_cons bound]
      simp [ByteArray.get!, inside]
  | case2 index front outside =>
      rw [List.drop_eq_nil_of_le (by simpa using Nat.le_of_not_lt outside), List.append_nil]

theorem bytes_eq (text : String) : bytes text = text.toList.flatMap String.utf8EncodeChar := by
  have same : text.toByteArray = (text.toList.flatMap String.utf8EncodeChar).toByteArray := by
    rw [← List.utf8Encode, ← String.toByteArray_ofList, String.ofList_toList]
  rw [bytes, String.toUTF8, ByteArray.toList, loop_toList, same, List.data_toByteArray]
  rfl

theorem bytes_append (front back : String) : bytes (front ++ back) = bytes front ++ bytes back := by
  rw [bytes_eq, bytes_eq, bytes_eq, String.toList_append, List.flatMap_append]

theorem bytes_empty : bytes "" = [] := by
  rw [bytes_eq]
  rfl

theorem bytes_slash : bytes "/" = [slash] := by
  rw [bytes_eq]
  rfl

theorem bytes_inj {text text' : String} : bytes text = bytes text' ↔ text = text' := by
  constructor
  · intro same
    rw [bytes_eq, bytes_eq] at same
    rw [← String.toByteArray_inj, ← String.ofList_toList (s := text), ← String.ofList_toList (s := text'),
      String.toByteArray_ofList, String.toByteArray_ofList, List.utf8Encode, List.utf8Encode, same]
  · rintro rfl
    rfl

/-- The bytes of characters beyond ASCII are beyond ASCII. -/
theorem encode_cases (c : Char) :
    (c.val.toNat < 128 ∧ String.utf8EncodeChar c = [UInt8.ofNat c.val.toNat]) ∨
      ∀ byte ∈ String.utf8EncodeChar c, 128 ≤ byte.toNat := by
  unfold String.utf8EncodeChar
  dsimp only
  split
  · exact .inl ⟨by omega, rfl⟩
  · right
    split
    · simp only [List.forall_mem_cons, UInt8.toNat_ofNat', List.not_mem_nil, false_implies, implies_true, and_true]
      omega
    · split
      · simp only [List.forall_mem_cons, UInt8.toNat_ofNat', List.not_mem_nil, false_implies, implies_true, and_true]
        omega
      · simp only [List.forall_mem_cons, UInt8.toNat_ofNat', List.not_mem_nil, false_implies, implies_true, and_true]
        omega

theorem slash_mem_encode {c : Char} : slash ∈ String.utf8EncodeChar c ↔ c = '/' := by
  constructor
  · intro member
    rcases encode_cases c with ⟨small, sole⟩ | large
    · rw [sole, List.mem_singleton] at member
      have value : 47 = c.val.toNat % 256 := by simpa [slash] using congrArg UInt8.toNat member
      exact Char.ext (UInt32.toNat_inj.1 (by omega : c.val.toNat = 47))
    · exact absurd (large _ member) (by decide)
  · rintro rfl
    decide

theorem slash_mem_bytes {text : String} : slash ∈ bytes text ↔ '/' ∈ text.toList := by
  simp only [bytes_eq, List.mem_flatMap, slash_mem_encode, exists_eq_right]

/-- The bytes of a path, cut at its slashes. -/
theorem splitOn_bytes {parts : List String} (some : parts ≠ []) (clear : ∀ part ∈ parts, '/' ∉ part.toList) :
    (bytes (Path.ofSegments parts)).splitOn slash = parts.map bytes := by
  have joined : bytes (Path.ofSegments parts) = [slash].intercalate (parts.map bytes) := by
    clear clear
    induction parts with
    | nil => exact absurd rfl some
    | cons name parts ih =>
        cases parts with
        | nil => simp [Path.ofSegments_single]
        | cons second parts =>
            have cut : Path.ofSegments (name :: second :: parts) =
                Path.ofSegments [name] ++ "/" ++ Path.ofSegments (second :: parts) :=
              Path.ofSegments_append (List.cons_ne_nil name []) (by simp)
            rw [cut, Path.ofSegments_single, bytes_append, bytes_append, ih (by simp), bytes_slash]
            simp [List.intercalate]
  rw [joined]
  refine List.splitOn_intercalate slash ?_ (by simpa using some)
  rintro _ member
  obtain ⟨part, listed, rfl⟩ := List.mem_map.1 member
  exact fun inside => clear part listed (slash_mem_bytes.1 inside)

/-! Matching. -/

/-- What pieces of a glob leave of an input. -/
inductive Leaves : List Token → List UInt8 → List UInt8 → Prop
  | nil (input : List UInt8) : Leaves [] input input
  | cons {piece : Token} {pieces : List Token} {input middle left : List UInt8} (first : middle ∈ leftAfter piece input)
      (rest : Leaves pieces middle left) : Leaves (piece :: pieces) input left

variable {piece : Token} {pieces pieces' : List Token} {input left : List UInt8} {inputs : List (List UInt8)}

theorem mem_leftAfterAll : left ∈ leftAfterAll pieces inputs ↔ ∃ input ∈ inputs, Leaves pieces input left := by
  induction pieces generalizing inputs with
  | nil =>
      rw [leftAfterAll]
      constructor
      · exact fun member => ⟨left, member, .nil left⟩
      · rintro ⟨input, member, leaves⟩
        cases leaves
        exact member
  | cons piece pieces ih =>
      rw [leftAfterAll, ih]
      constructor
      · rintro ⟨middle, member, rest⟩
        obtain ⟨input, listed, first⟩ := List.mem_flatMap.1 (List.mem_eraseDups.1 member)
        exact ⟨input, listed, .cons first rest⟩
      · rintro ⟨input, listed, leaves⟩
        cases leaves with
        | cons first rest => exact ⟨_, List.mem_eraseDups.2 (List.mem_flatMap.2 ⟨input, listed, first⟩), rest⟩

theorem matchesPath_iff {path : String} : matchesPath pieces path = true ↔ Leaves pieces (bytes path) [] := by
  rw [matchesPath, List.any_eq_true]
  simp only [List.isEmpty_iff, exists_eq_right, mem_leftAfterAll, List.mem_singleton, exists_eq_left]

theorem leaves_append :
    Leaves (pieces ++ pieces') input left ↔ ∃ middle, Leaves pieces input middle ∧ Leaves pieces' middle left := by
  induction pieces generalizing input with
  | nil =>
      constructor
      · exact fun leaves => ⟨input, .nil input, leaves⟩
      · rintro ⟨middle, none, leaves⟩
        cases none
        exact leaves
  | cons piece pieces ih =>
      constructor
      · intro leaves
        cases leaves with
        | cons first rest =>
            obtain ⟨middle, front, back⟩ := ih.1 rest
            exact ⟨middle, .cons first front, back⟩
      · rintro ⟨middle, front, back⟩
        cases front with
        | cons first rest => exact .cons first (ih.2 ⟨middle, rest, back⟩)

theorem leaves_singleton : Leaves [piece] input left ↔ left ∈ leftAfter piece input := by
  constructor
  · intro leaves
    cases leaves with
    | cons first rest =>
        cases rest
        exact first
  · exact fun member => .cons member (.nil left)

theorem leaves_literals {text : String} : Leaves (text.toList.map .literal) input left ↔ input = bytes text ++ left := by
  rw [bytes_eq]
  induction text.toList generalizing input with
  | nil =>
      constructor
      · intro leaves
        cases leaves
        rfl
      · rintro rfl
        exact .nil _
  | cons c cs ih =>
      have encode : bytes (String.singleton c) = String.utf8EncodeChar c := by rw [bytes_eq]; simp
      rw [List.map_cons, List.flatMap_cons, List.append_assoc]
      constructor
      · intro leaves
        cases leaves with
        | @cons _ _ _ middle _ first rest =>
            rw [leftAfter, encode] at first
            split at first
            · rename_i starts
              obtain ⟨after, rfl⟩ := List.isPrefixOf_iff_prefix.1 starts
              rw [List.drop_left, List.mem_singleton] at first
              rw [← first, ih.1 rest]
            · cases first
      · rintro rfl
        refine .cons ?_ (ih.2 rfl)
        rw [leftAfter, encode, if_pos (List.isPrefixOf_iff_prefix.2 (List.prefix_append _ _)), List.drop_left]
        exact List.mem_singleton_self _

theorem mem_leftAfterRun {test : UInt8 → Bool} :
    left ∈ leftAfterRun test input ↔ ∃ front, input = front ++ left ∧ ∀ b ∈ front, test b = true := by
  induction input with
  | nil =>
      rw [leftAfterRun, List.mem_singleton]
      constructor
      · rintro rfl
        exact ⟨[], rfl, by simp⟩
      · rintro ⟨front, split, _⟩
        exact (List.append_eq_nil_iff.1 split.symm).2
  | cons b input ih =>
      rw [leftAfterRun, List.mem_cons]
      constructor
      · rintro (rfl | later)
        · exact ⟨[], rfl, by simp⟩
        · split at later
          · rename_i passes
            obtain ⟨front, rfl, each⟩ := ih.1 later
            exact ⟨b :: front, rfl, List.forall_mem_cons.2 ⟨passes, each⟩⟩
          · cases later
      · rintro ⟨front, split, each⟩
        cases front with
        | nil => exact .inl split.symm
        | cons b' front =>
            obtain ⟨rfl, rfl⟩ := List.cons.inj split
            obtain ⟨passes, each⟩ := List.forall_mem_cons.1 each
            exact .inr (by rw [if_pos passes]; exact ih.2 ⟨front, rfl, each⟩)

theorem mem_leftAfterSlash : left ∈ leftAfterSlash input ↔ ∃ front, input = front ++ slash :: left := by
  induction input with
  | nil => simp [leftAfterSlash]
  | cons b input ih =>
      rw [leftAfterSlash]
      split
      · rename_i here
        obtain rfl := eq_of_beq here
        rw [List.mem_cons, ih]
        constructor
        · rintro (rfl | ⟨front, rfl⟩)
          · exact ⟨[], rfl⟩
          · exact ⟨slash :: front, rfl⟩
        · rintro ⟨front, split⟩
          cases front with
          | nil => exact .inl (List.cons.inj split).2.symm
          | cons b front => exact .inr ⟨front, (List.cons.inj split).2⟩
      · rename_i other
        rw [ih]
        constructor
        · rintro ⟨front, rfl⟩
          exact ⟨b :: front, rfl⟩
        · rintro ⟨front, split⟩
          cases front with
          | nil => exact absurd (beq_of_eq (List.cons.inj split).1) other
          | cons b front => exact ⟨front, (List.cons.inj split).2⟩

theorem leaves_run : Leaves [.run] input left ↔ ∃ front, input = front ++ left ∧ slash ∉ front := by
  rw [leaves_singleton, leftAfter, mem_leftAfterRun]
  refine exists_congr fun front => and_congr_right fun _ => ?_
  simp only [bne_iff_ne, ne_eq]
  exact ⟨fun each member => each slash member rfl, fun clear b member same => clear (same ▸ member)⟩

theorem leaves_leading : Leaves [.leading] input left ↔ input = left ∨ ∃ front, input = front ++ slash :: left := by
  rw [leaves_singleton, leftAfter, List.mem_cons, mem_leftAfterSlash, eq_comm]

theorem leaves_between :
    Leaves [.between] input left ↔ input = slash :: left ∨ ∃ front, input = slash :: (front ++ slash :: left) := by
  rw [leaves_singleton]
  cases input with
  | nil => simp [leftAfter]
  | cons b rest =>
      rw [leftAfter]
      split
      · rename_i here
        obtain rfl := eq_of_beq here
        rw [List.mem_cons, mem_leftAfterSlash]
        simp [eq_comm]
      · rename_i other
        refine iff_of_false List.not_mem_nil ?_
        rintro (same | ⟨front, same⟩)
        · exact other (beq_of_eq (List.cons.inj same).1)
        · exact other (beq_of_eq (List.cons.inj same).1)

/-! Reading. -/

/-- Characters that stand for themselves. -/
def IsPlain (c : Char) : Prop := c ∉ ['?', '[', Char.ofNat 123, Char.ofNat 125, '\\', '*']

instance : DecidablePred IsPlain := fun c => inferInstanceAs (Decidable (c ∉ _))

variable {c : Char} {cs rest : List Char} {last : Option Char} {rounds : Nat} {text : String}

theorem readPiece_plain (plain : IsPlain c) :
    readPiece ⟨[pieces], [], last⟩ c rest = .ok (⟨[.literal c :: pieces], [], some c⟩, rest) := by
  simp only [IsPlain, List.mem_cons, List.not_mem_nil, or_false, not_or] at plain
  obtain ⟨any, set, opening, closing, escape, star⟩ := plain
  unfold readPiece
  simp only [beq_eq_false_iff_ne.2 any, beq_eq_false_iff_ne.2 set, beq_eq_false_iff_ne.2 opening,
    beq_eq_false_iff_ne.2 closing, beq_eq_false_iff_ne.2 escape, beq_eq_false_iff_ne.2 star]
  by_cases comma : c = ','
  · subst comma
    rfl
  · rw [beq_eq_false_iff_ne.2 comma]
    rfl

theorem readPieces_plain (plain : ∀ c ∈ cs, IsPlain c) :
    readPieces (cs.length + rounds) ⟨[pieces], [], last⟩ (cs ++ rest) =
      readPieces rounds ⟨[(cs.map .literal).reverse ++ pieces], [], cs.getLast?.or last⟩ rest := by
  induction cs generalizing pieces last with
  | nil => simp
  | cons c cs ih =>
      obtain ⟨here, plain⟩ := List.forall_mem_cons.1 plain
      have count : (c :: cs).length + rounds = cs.length + rounds + 1 := by
        rw [List.length_cons]
        omega
      rw [count, List.cons_append, readPieces, readPiece_plain here]
      dsimp only
      rw [ih plain]
      simp [List.getLast?_cons]

/-- Reading goes on behind plain characters. -/
theorem parse_append {front back : String} (plain : ∀ c ∈ front.toList, IsPlain c)
    (read : ∃ last, readPieces back.toList.length ⟨[(front.toList.map .literal).reverse], [], front.toList.getLast?⟩
      back.toList = .ok ⟨[pieces.reverse], [], last⟩) : parse (front ++ back) = .ok pieces := by
  obtain ⟨last, read⟩ := read
  have start : readPieces (front ++ back).toList.length .start (front ++ back).toList =
      .ok ⟨[pieces.reverse], [], last⟩ := by
    rw [String.toList_append, List.length_append, Reading.start, readPieces_plain plain, List.append_nil, Option.or_none,
      read]
  rw [parse, start]
  simp [Reading.isNested, Reading.innermost]

/-! What the globs of package patterns match. -/

/-- The last segment is followed by `.go` at the end. -/
def EndsInGo (input : List UInt8) : Prop :=
  ∃ front, slash ∉ front ∧
    (input = front ++ bytes ".go" ∨ ∃ more, input = more ++ slash :: (front ++ bytes ".go"))

theorem leaves_name : Leaves ([.run] ++ ".go".toList.map .literal) input [] ↔
    ∃ front, input = front ++ bytes ".go" ∧ slash ∉ front := by
  rw [leaves_append]
  constructor
  · rintro ⟨middle, run, name⟩
    obtain ⟨front, rfl, clear⟩ := leaves_run.1 run
    rw [leaves_literals.1 name, List.append_nil]
    exact ⟨front, rfl, clear⟩
  · rintro ⟨front, rfl, clear⟩
    exact ⟨bytes ".go", leaves_run.2 ⟨front, rfl, clear⟩, leaves_literals.2 (List.append_nil _).symm⟩

theorem leaves_anywhere : Leaves (.leading :: ([.run] ++ ".go".toList.map .literal)) input [] ↔ EndsInGo input := by
  rw [← List.singleton_append, leaves_append]
  simp only [leaves_leading, leaves_name]
  constructor
  · rintro ⟨middle, rfl | ⟨more, rfl⟩, front, rfl, clear⟩
    · exact ⟨front, clear, .inl rfl⟩
    · exact ⟨front, clear, .inr ⟨more, rfl⟩⟩
  · rintro ⟨front, clear, rfl | ⟨more, rfl⟩⟩
    · exact ⟨_, .inl rfl, front, rfl, clear⟩
    · exact ⟨_, .inr ⟨more, rfl⟩, front, rfl, clear⟩

theorem leaves_below : Leaves (.between :: ([.run] ++ ".go".toList.map .literal)) input [] ↔
    ∃ back, input = slash :: back ∧ EndsInGo back := by
  rw [← List.singleton_append, leaves_append]
  simp only [leaves_between, leaves_name]
  constructor
  · rintro ⟨middle, rfl | ⟨more, rfl⟩, front, rfl, clear⟩
    · exact ⟨_, rfl, front, clear, .inl rfl⟩
    · exact ⟨_, rfl, front, clear, .inr ⟨more, rfl⟩⟩
  · rintro ⟨back, rfl, front, clear, rfl | ⟨more, rfl⟩⟩
    · exact ⟨_, .inl rfl, front, rfl, clear⟩
    · exact ⟨_, .inr ⟨more, rfl⟩, front, rfl, clear⟩

/-- A plain text is the only path that it matches. -/
theorem exists_plain (plain : ∀ c ∈ text.toList, IsPlain c) :
    ∃ glob, parse text = .ok glob ∧ ∀ path, matchesPath glob path = true ↔ path = text := by
  have read : parse (text ++ "") = .ok (text.toList.map .literal) := by
    exact parse_append plain ⟨_, rfl⟩
  rw [String.append_empty] at read
  refine ⟨_, read, fun path => ?_⟩
  rw [matchesPath_iff, leaves_literals, List.append_nil, bytes_inj]

/-- `**/*.go` matches every path that ends in `.go`. -/
theorem exists_leading : ∃ glob, parse "**/*.go" = .ok glob ∧
    ∀ path, matchesPath glob path = true ↔ EndsInGo (bytes path) := by
  have read : parse "**/*.go" = .ok (.leading :: ([.run] ++ ".go".toList.map .literal)) := rfl
  exact ⟨_, read, fun path => matchesPath_iff.trans leaves_anywhere⟩

/-- `*.go` behind a text stays in one segment. -/
theorem exists_run (plain : ∀ c ∈ text.toList, IsPlain c) : ∃ glob, parse (text ++ "*.go") = .ok glob ∧
    ∀ path, matchesPath glob path = true ↔
      ∃ front, bytes path = bytes text ++ (front ++ bytes ".go") ∧ slash ∉ front := by
  have read : parse (text ++ "*.go") = .ok (text.toList.map .literal ++ ([.run] ++ ".go".toList.map .literal)) := by
    refine parse_append plain ⟨some 'o', ?_⟩
    rw [List.reverse_append]
    rfl
  refine ⟨_, read, fun path => ?_⟩
  rw [matchesPath_iff, leaves_append]
  simp only [leaves_literals, leaves_name]
  constructor
  · rintro ⟨_, split, front, rfl, clear⟩
    exact ⟨front, split, clear⟩
  · rintro ⟨front, split, clear⟩
    exact ⟨_, split, front, rfl, clear⟩

/-- `/**/*.go` behind a text goes on below it. -/
theorem exists_between (plain : ∀ c ∈ text.toList, IsPlain c) : ∃ glob, parse (text ++ "/**/*.go") = .ok glob ∧
    ∀ path, matchesPath glob path = true ↔ ∃ back, bytes path = bytes text ++ slash :: back ∧ EndsInGo back := by
  have read : parse (text ++ "/**/*.go") =
      .ok (text.toList.map .literal ++ .between :: ([.run] ++ ".go".toList.map .literal)) := by
    refine parse_append plain ⟨some 'o', ?_⟩
    rw [List.reverse_append]
    rfl
  refine ⟨_, read, fun path => ?_⟩
  rw [matchesPath_iff, leaves_append]
  simp only [leaves_literals, leaves_below]
  constructor
  · rintro ⟨_, split, back, rfl, ends⟩
    exact ⟨back, split, ends⟩
  · rintro ⟨back, split, ends⟩
    exact ⟨_, split, back, rfl, ends⟩

end Glob
end TraceWeave
