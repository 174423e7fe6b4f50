/-! Texts as lists of lines. -/
namespace TraceWeave.Text

/-- Cut characters after every line feed, carriage return, or carriage return with its line feed. -/
def cutLines : List Char → List (List Char)
  | [] => []
  | '\r' :: '\n' :: rest => ['\r', '\n'] :: cutLines rest
  | c :: rest =>
      if c == '\n' || c == '\r' then [c] :: cutLines rest
      else
        match cutLines rest with
        | [] => [[c]]
        | line :: lines => (c :: line) :: lines

/-- The lines of a text, each with what ends it. Only the last line may lack an end. -/
def lines (s : String) : List String := (cutLines s.toList).map String.ofList

/-- Whether a line has its end. -/
def isEnded (line : String) : Bool :=
  line.toList.getLast?.any fun c => c == '\n' || c == '\r'

theorem flatten_cutLines (cs : List Char) : (cutLines cs).flatten = cs := by
  fun_induction cutLines cs with
  | case1 => rfl
  | case2 rest ih => simp [ih]
  | case3 c rest _ ends ih => simp [ih]
  | case4 c rest _ _ empty ih => simp_all
  | case5 c rest _ _ line lines found ih => simp_all

end TraceWeave.Text
