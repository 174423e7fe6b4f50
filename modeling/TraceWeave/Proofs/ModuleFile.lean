import TraceWeave.Loader
import TraceWeave.Proofs.Text.Split
import TraceWeave.Proofs.Text.Trim

/-!
The path of a module. The first line that begins with the word `module` declares it, whatever stands before;
a comment behind the path is taken for a part of it.
-/
namespace TraceWeave.Loader

open Text (isBlank)

/-- The first word of a line, up to white space. -/
def firstWord (line : String) : String :=
  String.ofList ((line.toList.dropWhile isBlank).takeWhile (!isBlank ·))

/-- A line that declares the path of a module. -/
structure Directive where
  lead : String
  gap : String
  isQuoted : Bool
  path : String
  tail : String
  /-- From its slashes on, if there is one. -/
  comment : String
  blank : ∀ c ∈ (lead ++ gap ++ tail).toList, isBlank c = true ∧ c ≠ '\n'
  apart : gap ≠ ""
  named : path ≠ ""
  plain : ∀ c ∈ path.toList, isBlank c = false ∧ c.toNat ≠ 34
  remark : comment = "" ∨ ['/', '/'] <+: comment.toList ∧ '\n' ∉ comment.toList

namespace Directive

variable {directive : Directive}

def quote (directive : Directive) : String := if directive.isQuoted then "\"" else ""

/-- The path as it is written. -/
def written (directive : Directive) : String := directive.quote ++ directive.path ++ directive.quote

def line (directive : Directive) : String :=
  directive.lead ++ "module" ++ directive.gap ++ directive.written ++ directive.tail ++ directive.comment

/-- What stands behind the path, without white space at the end of the line. -/
def behind (directive : Directive) : String :=
  if directive.comment = "" then "" else directive.tail ++ Text.dropEnd isBlank directive.comment

/-- What a comment leaves behind the path: all of it, but for white space and quotation marks at its end. -/
def remainder (directive : Directive) : String :=
  if directive.comment = "" then ""
  else
    directive.quote ++ directive.tail ++ Text.dropEnd (fun c => c.toNat = 34) (Text.dropEnd isBlank directive.comment)

theorem blank_lead {c : Char} (member : c ∈ directive.lead.toList) : isBlank c = true ∧ c ≠ '\n' :=
  directive.blank c (by simp [member])

theorem blank_gap {c : Char} (member : c ∈ directive.gap.toList) : isBlank c = true ∧ c ≠ '\n' :=
  directive.blank c (by simp [member])

theorem blank_tail {c : Char} (member : c ∈ directive.tail.toList) : isBlank c = true ∧ c ≠ '\n' :=
  directive.blank c (by simp [member])

theorem mem_quote {c : Char} (member : c ∈ directive.quote.toList) : c = '"' := by
  unfold quote at member
  split at member
  · exact List.mem_singleton.1 member
  · cases member

theorem written_plain {c : Char} (member : c ∈ directive.written.toList) : isBlank c = false ∧ c ≠ '\n' := by
  rw [written, String.toList_append, String.toList_append, List.mem_append, List.mem_append] at member
  rcases member with (quoted | named) | quoted
  · rw [mem_quote quoted]
    decide
  · refine ⟨(directive.plain c named).1, ?_⟩
    rintro rfl
    exact absurd (directive.plain _ named).1 (by decide)
  · rw [mem_quote quoted]
    decide

theorem written_ne (directive : Directive) : directive.written.toList ≠ [] := by
  simp [written, directive.named]

/-- A comment is there from its first slash on. -/
theorem exists_slash (remarked : directive.comment ≠ "") : '/' ∈ directive.comment.toList := by
  obtain ⟨⟨rest, split⟩, _⟩ := directive.remark.resolve_left remarked
  simp [← split]

theorem trim_line (directive : Directive) :
    Text.trim directive.line = "module" ++ (directive.gap ++ (directive.written ++ directive.behind)) := by
  have start : Text.dropStart isBlank directive.line =
      "module" ++ (directive.gap ++ (directive.written ++ (directive.tail ++ directive.comment))) := by
    refine Text.dropStart_eq_iff.2 ⟨directive.lead.toList, ?_, fun c member => (blank_lead member).1, ?_⟩
    · simp [line, String.append_assoc]
    · intro c member
      simp at member
      rw [← member]
      decide
  unfold behind
  rw [Text.trim, start]
  split
  · rename_i bare
    refine Text.dropEnd_eq_iff.2 ⟨directive.tail.toList, ?_, fun c member => (blank_tail member).1, ?_⟩
    · simp [bare]
    · intro c member
      rw [String.append_empty, ← String.append_assoc, String.toList_append, List.getLast?_append,
        List.getLast?_eq_some_getLast directive.written_ne] at member
      obtain rfl := Option.some.inj member
      exact (written_plain (List.getLast_mem _)).1
  · rename_i remarked
    simp only [← String.append_assoc]
    exact Text.dropEnd_append ⟨'/', exists_slash remarked, by decide⟩

theorem trim_behind (directive : Directive) :
    Text.trim (directive.gap ++ (directive.written ++ directive.behind)) = directive.written ++ directive.behind := by
  refine Text.trim_eq directive.gap.toList [] ?_ (fun c member => (blank_gap member).1) (by simp) ?_ ?_
  · rw [String.toList_append, List.append_nil]
  · intro c member
    rw [String.toList_append, List.head?_append, List.head?_eq_some_head directive.written_ne] at member
    obtain rfl := Option.some.inj member
    exact (written_plain (List.head_mem _)).1
  · -- the end is that of the trimmed line
    intro c member
    obtain ⟨_, _, _, _, _, _, ends⟩ := Text.exists_trim directive.line
    refine ends c ?_
    rw [trim_line, ← String.append_assoc, String.toList_append, List.getLast?_append, Option.mem_def.1 member]
    rfl

theorem dropStart_written (directive : Directive) (rest : String) :
    Text.dropStart (fun c => c.toNat = 34) (directive.written ++ rest) = directive.path ++ (directive.quote ++ rest) := by
  refine Text.dropStart_eq_iff.2 ⟨directive.quote.toList, ?_, ?_, ?_⟩
  · simp [written, String.append_assoc]
  · intro c member
    rw [mem_quote member]
    decide
  · intro c member
    have named : directive.path.toList ≠ [] := by simpa using directive.named
    rw [String.toList_append, List.head?_append, List.head?_eq_some_head named] at member
    obtain rfl := Option.some.inj member
    exact decide_eq_false (directive.plain _ (List.head_mem _)).2

theorem dropEnd_behind (directive : Directive) :
    Text.dropEnd (fun c => c.toNat = 34) (directive.path ++ (directive.quote ++ directive.behind)) =
      directive.path ++ directive.remainder := by
  unfold behind remainder
  split
  · rw [String.append_empty, String.append_empty]
    refine Text.dropEnd_eq_iff.2 ⟨directive.quote.toList, String.toList_append, ?_, ?_⟩
    · intro c member
      rw [mem_quote member]
      decide
    · intro c member
      exact decide_eq_false (directive.plain c (List.mem_of_getLast? member)).2
  · rename_i remarked
    have slash : '/' ∈ (Text.dropEnd isBlank directive.comment).toList :=
      Text.mem_dropEnd (exists_slash remarked) (by decide)
    simp only [← String.append_assoc]
    exact Text.dropEnd_append ⟨'/', slash, by decide⟩

theorem moduleOnLine?_line (directive : Directive) :
    moduleOnLine? directive.line = some (directive.path ++ directive.remainder) := by
  have gap : directive.gap.toList ≠ [] := by simpa using directive.apart
  have spaced : (directive.gap ++ (directive.written ++ directive.behind)).toList.head?.any isBlank = true := by
    rw [String.toList_append, List.head?_append, List.head?_eq_some_head gap]
    exact (blank_gap (List.head_mem gap)).1
  have named : (directive.path ++ directive.remainder != "") = true := by simp [directive.named]
  unfold moduleOnLine?
  rw [trim_line, Text.after?_append]
  simp only [Option.bind_eq_bind, Option.bind_some, trim_behind, dropStart_written, dropEnd_behind, spaced, named,
    Bool.and_self, if_true]

theorem onLine (directive : Directive) : '\n' ∉ directive.line.toList := by
  intro member
  simp only [line, String.toList_append, List.mem_append] at member
  rcases member with ((((lead | word) | gap) | written) | tail) | comment
  · exact (blank_lead lead).2 rfl
  · exact absurd word (by decide)
  · exact (blank_gap gap).2 rfl
  · exact (written_plain written).2 rfl
  · exact (blank_tail tail).2 rfl
  · rcases directive.remark with none | ⟨_, clear⟩
    · simp [none] at comment
    · exact clear comment

/-- A comment always leaves something. -/
theorem remainder_eq_empty (directive : Directive) : directive.remainder = "" ↔ directive.comment = "" := by
  unfold remainder
  split
  · rename_i bare
    exact iff_of_true rfl bare
  · rename_i remarked
    refine iff_of_false (fun empty => ?_) remarked
    have slash : '/' ∈ (Text.dropEnd (fun c => c.toNat = 34) (Text.dropEnd isBlank directive.comment)).toList :=
      Text.mem_dropEnd (Text.mem_dropEnd (exists_slash remarked) (by decide)) (by decide)
    rw [(String.append_eq_empty_iff.1 empty).2] at slash
    cases slash

end Directive

/-- A line that declares a path begins with the word. -/
theorem firstWord_of_moduleOnLine? {line path : String} (found : moduleOnLine? line = some path) :
    firstWord line = "module" := by
  unfold moduleOnLine? at found
  obtain ⟨rest, starts, found⟩ := Option.bind_eq_some_iff.1 found
  dsimp only at found
  split at found
  · rename_i passes
    obtain ⟨c, first, blank⟩ := (Option.any_eq_true _ _).1 (Bool.and_eq_true_iff.1 passes).1
    obtain ⟨front, back, split, before, _⟩ := Text.exists_trim line
    rw [Text.eq_of_after? starts, String.toList_append, List.append_assoc, List.append_assoc] at split
    have word : line.toList.dropWhile isBlank = "module".toList ++ (rest.toList ++ back) :=
      Text.dropWhile_eq_iff.2 ⟨front, split, before, by simp; decide⟩
    obtain ⟨cs, rest⟩ := List.head?_eq_some_iff.1 first
    have ends : ("module".toList ++ (c :: cs ++ back)).takeWhile (!isBlank ·) = "module".toList := by
      rw [List.takeWhile_append_of_pos (Text.forall_mem_of_all (by decide)), List.cons_append, List.takeWhile_cons_of_neg (by simp [blank]),
        List.append_nil]
    rw [firstWord, word, rest, ends, String.ofList_toList]
  · cases found

/-- The end of a line can be a carriage return. -/
theorem moduleOnLine?_ended (line : String) :
    moduleOnLine? ((Text.before? "\r" line).getD line) = moduleOnLine? line := by
  cases ended : Text.before? "\r" line with
  | none => rfl
  | some start =>
      have split : line = start ++ String.ofList ['\r'] := Text.eq_of_before? ended
      rw [split, Option.getD_some]
      unfold moduleOnLine?
      rw [Text.trim_append_blank (by simp; decide)]

theorem modulePath?_eq (text : String) : modulePath? text = (Text.splitAt '\n' text).findSome? moduleOnLine? := by
  unfold modulePath? lines
  rw [List.findSome?_map]
  exact congrArg (List.findSome? · _) (funext moduleOnLine?_ended)

/-- The first directive is read, whatever stands on other lines. Its path is all that is read if and only if no
comment follows. -/
theorem modulePath?_reads {before after : List String} (directive : Directive)
    (lines : ∀ line ∈ before ++ after, '\n' ∉ line.toList) (others : ∀ line ∈ before, firstWord line ≠ "module") :
    modulePath? (Text.joinWith "\n" (before ++ directive.line :: after)) = some (directive.path ++ directive.remainder) ∧
      (modulePath? (Text.joinWith "\n" (before ++ directive.line :: after)) = some directive.path ↔
        directive.comment = "") := by
  have clear : ∀ line ∈ before ++ directive.line :: after, '\n' ∉ line.toList := by
    intro line member
    rcases List.mem_append.1 member with above | member
    · exact lines line (List.mem_append_left _ above)
    · rcases List.mem_cons.1 member with rfl | below
      · exact directive.onLine
      · exact lines line (List.mem_append_right _ below)
  have above : before.findSome? moduleOnLine? = none := by
    refine List.findSome?_eq_none_iff.2 fun line member => ?_
    refine Option.eq_none_iff_forall_ne_some.2 fun path found => ?_
    exact others line member (firstWord_of_moduleOnLine? found)
  have reads : modulePath? (Text.joinWith "\n" (before ++ directive.line :: after)) =
      some (directive.path ++ directive.remainder) := by
    rw [modulePath?_eq, Text.splitAt_joinWith rfl (by simp) clear, List.findSome?_append, above, Option.none_or,
      List.findSome?_cons_of_isSome (by simp [directive.moduleOnLine?_line]), directive.moduleOnLine?_line]
  refine ⟨reads, ?_⟩
  rw [reads, Option.some_inj, String.append_eq_left_iff, directive.remainder_eq_empty]

/-- The path of a module between quotation marks, with white space around it. -/
def quotedPath : Directive where
  lead := "\t"
  gap := " \t"
  isQuoted := true
  path := "example.com/app"
  tail := " \r"
  comment := ""
  blank := Text.forall_mem_of_all (by decide +kernel)
  apart := by decide
  named := by decide
  plain := Text.forall_mem_of_all (by decide +kernel)
  remark := .inl rfl

theorem modulePath?_reads_quotedPath :
    (∀ line ∈ ["// module example.com/old", "modules 2", "go 1.22\r", ""] ++ [""], '\n' ∉ line.toList) ∧
      (∀ line ∈ ["// module example.com/old", "modules 2", "go 1.22\r", ""], firstWord line ≠ "module") ∧
      modulePath? (Text.joinWith "\n"
        (["// module example.com/old", "modules 2", "go 1.22\r", ""] ++ quotedPath.line :: [""])) =
          some "example.com/app" := by
  have lines : ∀ line ∈ ["// module example.com/old", "modules 2", "go 1.22\r", ""] ++ [""], '\n' ∉ line.toList := by
    decide +kernel
  have others : ∀ line ∈ ["// module example.com/old", "modules 2", "go 1.22\r", ""], firstWord line ≠ "module" := by
    decide +kernel
  exact ⟨lines, others, (modulePath?_reads quotedPath lines others).2.2 rfl⟩

/-- A path with a comment behind it. -/
def commentedPath : Directive where
  lead := ""
  gap := " "
  isQuoted := false
  path := "example.com/app"
  tail := " "
  comment := "// the service"
  blank := Text.forall_mem_of_all (by decide +kernel)
  apart := by decide
  named := by decide
  plain := Text.forall_mem_of_all (by decide +kernel)
  remark := .inr (by decide +kernel)

theorem commentedPath_isMisread :
    commentedPath.line = "module example.com/app // the service" ∧
      modulePath? "module example.com/app // the service\n" = some "example.com/app // the service" ∧
      modulePath? "module example.com/app // the service\n" ≠ some commentedPath.path := by
  decide +kernel

end TraceWeave.Loader
