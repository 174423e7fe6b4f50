import Mathlib.Data.List.TakeWhile
import Mathlib.Data.String.Basic
import TraceWeave.Text.Line

/-! Offsets between characters. Each of them cuts the characters of a text in two, and a slice between
two of them has the characters between the cuts. -/
namespace TraceWeave.Text

/-- An offset with the characters before and after it. -/
structure Cut (source : String) (offset : Nat) (before after : List Char) : Prop where
  whole : source.toList = before ++ after
  size : byteCount before = offset

variable {source : String} {offset start stop : Nat} {before after before' after' between : List Char}

theorem byteCount_eq (cs : List Char) : byteCount cs = String.utf8Len cs := by
  induction cs with
  | nil => rfl
  | cons c cs ih => rw [byteCount_cons, String.utf8Len_cons, ih, Nat.add_comm]

theorem size_ofList (cs : List Char) : size (String.ofList cs) = byteCount cs := by
  rw [size, String.utf8ByteSize_ofList, byteCount_eq]

theorem size_eq (s : String) : size s = byteCount s.toList := by
  rw [size, byteCount_eq, String.utf8Len_toList]

theorem isBoundary_iff : isBoundary source offset = true ↔ ∃ before after, Cut source offset before after := by
  rw [isBoundary, String.Pos.Raw.isValid_eq_true_iff, String.Pos.Raw.isValid_iff_exists_append]
  constructor
  · rintro ⟨first, second, rfl, position⟩
    refine ⟨first.toList, second.toList, String.toList_append, ?_⟩
    rw [← size_eq]
    exact (congrArg String.Pos.Raw.byteIdx position).symm
  · rintro ⟨first, second, whole, bytes⟩
    refine ⟨String.ofList first, String.ofList second, ?_, ?_⟩
    · rw [← String.ofList_append, ← whole, String.ofList_toList]
    · rw [String.rawEndPos_ofList, ← byteCount_eq, bytes]

namespace Cut

theorem isBoundary (cut : Cut source offset before after) : isBoundary source offset = true :=
  isBoundary_iff.2 ⟨before, after, cut⟩

theorem size_source (cut : Cut source offset before after) : Text.size source = offset + byteCount after := by
  rw [size_eq, cut.whole, byteCount_append, cut.size]

theorem le_size (cut : Cut source offset before after) : offset ≤ Text.size source := by
  rw [cut.size_source]
  exact Nat.le_add_right _ _

/-- Further on by some characters. -/
theorem step (cut : Cut source offset before (between ++ after)) :
    Cut source (offset + byteCount between) (before ++ between) after := by
  refine ⟨?_, ?_⟩
  · rw [cut.whole, List.append_assoc]
  · rw [byteCount_append, cut.size]

theorem slice_eq (first : Cut source start before (between ++ after))
    (last : Cut source stop (before ++ between) after) : slice source start stop = String.ofList between := by
  have whole : source = String.ofList (before ++ between ++ after) := by
    rw [← last.whole, String.ofList_toList]
  have bytes : stop = String.utf8Len before + String.utf8Len between := by
    rw [← last.size, byteCount_append, byteCount_eq, byteCount_eq]
  rw [slice, bytes, ← first.size, byteCount_eq, whole]
  exact String.extract_of_valid before between after

end Cut

theorem cut_start (source : String) : Cut source 0 [] source.toList := ⟨rfl, rfl⟩

theorem cut_stop (source : String) : Cut source (size source) source.toList [] :=
  ⟨(List.append_nil _).symm, (size_eq source).symm⟩

theorem isBoundary_zero (source : String) : isBoundary source 0 = true := (cut_start source).isBoundary

theorem isBoundary_size (source : String) : isBoundary source (size source) = true := (cut_stop source).isBoundary

theorem le_size_of_isBoundary (sound : isBoundary source offset = true) : offset ≤ size source := by
  obtain ⟨before, after, cut⟩ := isBoundary_iff.1 sound
  exact cut.le_size

/-! Lines begin and end between characters. -/

theorem lineStart_eq (cut : Cut source offset before after) :
    lineStart source offset = offset - byteCount (before.reverse.takeWhile (· != '\n')) := by
  have first : Cut source 0 [] (before ++ after) := cut.whole ▸ cut_start source
  rw [lineStart, first.slice_eq cut, String.toList_ofList]

theorem lineEnd_eq (cut : Cut source offset before after) :
    lineEnd source offset = offset + byteCount (after.takeWhile (· != '\n')) := by
  have first : Cut source offset before (after ++ []) := by rwa [List.append_nil]
  have last : Cut source (size source) (before ++ after) [] := cut.whole ▸ cut_stop source
  rw [lineEnd, first.slice_eq last, String.toList_ofList]

theorem lineStart_le (source : String) (offset : Nat) : lineStart source offset ≤ offset := Nat.sub_le _ _

theorem le_lineEnd (source : String) (offset : Nat) : offset ≤ lineEnd source offset := Nat.le_add_right _ _

/-- The line of an offset, up to the offset. -/
theorem exists_line (sound : isBoundary source offset = true) :
    ∃ front line after, Cut source (lineStart source offset) front (line ++ after) ∧
      Cut source offset (front ++ line) after ∧ (∀ c ∈ line, (c != '\n') = true) ∧
        (front = [] ∨ ∃ others, front = others ++ ['\n']) := by
  obtain ⟨before, after, cut⟩ := isBoundary_iff.1 sound
  -- the characters before the offset, with those of its own line apart
  have parts : before =
      (before.reverse.dropWhile (· != '\n')).reverse ++ (before.reverse.takeWhile (· != '\n')).reverse := by
    rw [← List.reverse_append, List.takeWhile_append_dropWhile, List.reverse_reverse]
  refine ⟨(before.reverse.dropWhile (· != '\n')).reverse, (before.reverse.takeWhile (· != '\n')).reverse, after,
    ⟨?_, ?_⟩, ⟨?_, ?_⟩, fun c member => ?_, ?_⟩
  · rw [← List.append_assoc, ← parts, cut.whole]
  · have bytes := cut.size
    rw [parts, byteCount_append] at bytes
    rw [lineStart_eq cut, ← bytes, byteCount_eq (List.reverse _), byteCount_eq (List.reverse _),
      byteCount_eq (List.takeWhile _ _), String.utf8Len_reverse (List.takeWhile _ _), Nat.add_sub_cancel]
  · rw [← parts, cut.whole]
  · rw [← parts, cut.size]
  · exact List.mem_takeWhile_imp (p := (· != '\n')) (List.mem_reverse.1 member)
  · cases rest : before.reverse.dropWhile (· != '\n') with
    | nil => exact .inl rfl
    | cons c others =>
        have test := List.head?_dropWhile_not (· != '\n') before.reverse
        rw [rest] at test
        have feed : c = '\n' := by simpa using test
        exact .inr ⟨others.reverse, by rw [List.reverse_cons, feed]⟩

/-- The line of an offset, from the offset on. -/
theorem exists_restOfLine (sound : isBoundary source offset = true) :
    ∃ before line others, Cut source offset before (line ++ others) ∧
      Cut source (lineEnd source offset) (before ++ line) others ∧ (∀ c ∈ line, (c != '\n') = true) ∧
        (others = [] ∨ ∃ rest, others = '\n' :: rest) := by
  obtain ⟨before, after, cut⟩ := isBoundary_iff.1 sound
  have parts : Cut source offset before (after.takeWhile (· != '\n') ++ after.dropWhile (· != '\n')) := by
    rwa [List.takeWhile_append_dropWhile]
  refine ⟨before, after.takeWhile (· != '\n'), after.dropWhile (· != '\n'), parts, ?_, fun c => ?_, ?_⟩
  · rw [lineEnd_eq cut]
    exact parts.step
  · exact List.mem_takeWhile_imp
  · cases rest : after.dropWhile (· != '\n') with
    | nil => exact .inl rfl
    | cons c others =>
        have test := List.head?_dropWhile_not (· != '\n') after
        rw [rest] at test
        exact .inr ⟨others, by simpa using test⟩

theorem isBoundary_lineStart (sound : isBoundary source offset = true) :
    isBoundary source (lineStart source offset) = true := by
  obtain ⟨front, line, after, cut, _⟩ := exists_line sound
  exact cut.isBoundary

theorem isBoundary_lineEnd (sound : isBoundary source offset = true) :
    isBoundary source (lineEnd source offset) = true := by
  obtain ⟨before, line, others, _, cut, _⟩ := exists_restOfLine sound
  exact cut.isBoundary

end TraceWeave.Text
