/-! Looking for one text inside another. -/
namespace TraceWeave.Text

/-- Whether `part` occurs in a list of characters. -/
def occursIn (part : List Char) : List Char → Bool
  | [] => part.isEmpty
  | c :: cs => part.isPrefixOf (c :: cs) || occursIn part cs

/-- Whether `part` occurs in `s`. -/
def contains (s part : String) : Bool := occursIn part.toList s.toList

/-- Whether `s` begins with `part`. -/
def beginsWith (s part : String) : Bool := part.toList.isPrefixOf s.toList

/-- Whether `s` ends with `part`. -/
def finishesWith (s part : String) : Bool := part.toList.isSuffixOf s.toList

/-- What follows `part` at the start of `s`. -/
def after? (part s : String) : Option String :=
  if beginsWith s part then some (String.ofList (s.toList.drop part.toList.length)) else none

/-- What stands before `part` at the end of `s`. -/
def before? (part s : String) : Option String :=
  if finishesWith s part then some (String.ofList (s.toList.take (s.toList.length - part.toList.length)))
  else none

/-- A list without the repetitions of `part` at its start. Each round takes away at least one
character, so the length bounds the rounds. -/
def dropRepeatsFrom (part : List Char) : Nat → List Char → List Char
  | 0, cs => cs
  | rounds + 1, cs =>
      if part.isPrefixOf cs && !part.isEmpty then dropRepeatsFrom part rounds (cs.drop part.length)
      else cs

/-- `s` without any number of repetitions of `part` at its start. -/
def dropRepeats (part s : String) : String :=
  String.ofList (dropRepeatsFrom part.toList s.toList.length s.toList)

/-- A list with every occurrence of `part` replaced, from left to right; `skip` characters of the
occurrence before are still to be left out. -/
def replaceFrom (part new : List Char) : Nat → List Char → List Char
  | _, [] => []
  | skip + 1, _ :: cs => replaceFrom part new skip cs
  | 0, c :: cs =>
      if part.isPrefixOf (c :: cs) && !part.isEmpty then new ++ replaceFrom part new (part.length - 1) cs
      else c :: replaceFrom part new 0 cs

/-- `s` with every occurrence of `part` replaced. -/
def replaceAll (s part new : String) : String :=
  String.ofList (replaceFrom part.toList new.toList 0 s.toList)

/-- The pieces between occurrences of a character. -/
def splitAt (c : Char) (s : String) : List String := (s.toList.splitOn c).map String.ofList

/-- Texts in order, with `middle` between each two. -/
def joinWith (middle : String) (parts : List String) : String := middle.intercalate parts

end TraceWeave.Text
