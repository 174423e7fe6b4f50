import TraceWeave.Go.Grammar.Statements
import TraceWeave.Text.Line

/-! Whole files: declarations and statements in any order, each ended by a line break or semicolon. -/
namespace TraceWeave.Go
namespace Grammar

def stringKind? (token : Token) : Option Kind :=
  match token.kind with
  | .interpreted => some .interpretedStringLiteral
  | .raw => some .rawStringLiteral
  | _ => none

/-- The path of an import. -/
def importPath : Reader Node := do
  let token ← Reader.peek
  match stringKind? token with
  | some kind =>
      let _ ← Reader.take
      return (token.leaf kind).withRole .path
  | none => Reader.stuck

/-- A path, with the name the file gives to the package if it gives one. -/
def importSpec : Reader Node := do
  let token ← Reader.peek
  let name ←
    if token.isMark "." then do
      let _ ← Reader.take
      pure [(token.leaf .dot).withRole .name]
    else if token.kind == .word then do
      let _ ← Reader.take
      pure [(token.leaf (if token.text == "_" then .blankIdentifier else .packageIdentifier)).withRole .name]
    else pure []
  let path ← importPath
  return .build .importSpec token.start path.stop (name ++ [path])

def importDeclaration : Reader Node := do
  let head ← Reader.keyword "import"
  if ← Reader.nextIs false "(" then
    let opening ← Reader.take
    let specs ← Reader.lineList ")" importSpec
    let closing ← Reader.mark ")"
    return .build .importDeclaration head.start closing.stop
      [.build .importSpecList opening.start closing.stop specs]
  else
    let spec ← importSpec
    return .build .importDeclaration head.start spec.stop [spec]

def packageClause : Reader Node := do
  let head ← Reader.keyword "package"
  let name ← Reader.word
  return .build .packageClause head.start name.stop [name.leaf .packageIdentifier]

variable (g : Grammar)

/-- The block of a function, unless the line ends before it. -/
def functionBody : Reader (List Node) := do
  if ← Reader.nextIs true "\x7b" then return [(← g.block).withRole .body] else return []

def functionDeclaration : Reader Node := do
  let head ← Reader.keyword "func"
  let name ← Reader.word
  let generic ←
    if ← Reader.nextIs false "[" then pure [(← g.typeParameters).withRole .typeParameters] else pure []
  let (_, signature) ← g.signature true
  let body ← g.functionBody
  let children := (name.leaf .identifier).withRole .name :: generic ++ signature ++ body
  return .build .functionDeclaration head.start (endOf head.stop children) children

def methodDeclaration : Reader Node := do
  let head ← Reader.keyword "func"
  let receiver ← g.parameters
  let name ← Reader.word
  let (_, signature) ← g.signature true
  let body ← g.functionBody
  let children := receiver.withRole .receiver :: (name.leaf .fieldIdentifier).withRole .name ::
    signature ++ body
  return .build .methodDeclaration head.start (endOf head.stop children) children

/-- A declaration or statement at file level. -/
def fileItem : Reader Node := do
  let token ← Reader.peek
  let second ← Reader.peekSecond
  if token.isWord "package" then packageClause
  else if token.isWord "import" then importDeclaration
  else if token.isWord "func" then
    if second.isMark "(" then Reader.either g.methodDeclaration g.statement
    else g.functionDeclaration
  else g.statement

/-- Readers of phrases that nest at most so deep. Each level either takes a token or passes on to
one of a few readers that do, so a depth of a few times the number of tokens is never reached. -/
def nested : Nat → Grammar
  | 0 => ⟨fun _ => Reader.stuck, fun _ => Reader.stuck, Reader.stuck, Reader.stuck, Reader.stuck⟩
  | depth + 1 =>
      let g := nested depth
      ⟨g.typeStep, g.expressionStep, g.literalValueStep, g.blockStep, g.statementStep⟩

/-- Where reading a file got stuck: tokens left at the start of the item, and at the sticking point. -/
structure Trouble where
  item : Nat
  point : Nat

/-- The items of a file, each with its terminator, in at most so many rounds. -/
def fileItems : Nat → List Token → Except Trouble (List Node)
  | 0, _ => .ok []
  | rounds + 1, tokens =>
      if (tokens.headD default).kind == .eof || tokens.isEmpty then .ok []
      else
        match (do
          let item ← g.fileItem
          Reader.terminator
          return item : Reader Node) tokens with
        | .ok (item, rest) => (fileItems rounds rest).map (item :: ·)
        | .error point => .error ⟨tokens.length, point⟩

end Grammar

namespace Node

/-- Two lists in document order as one. -/
def merge : List Node → List Node → List Node
  | [], right => right
  | left, [] => left
  | a :: left, b :: right =>
      if b.start < a.start then b :: merge (a :: left) right else a :: merge left (b :: right)
termination_by left right => left.length + right.length

/-- Whether a node covers another. -/
def covers (outer inner : Node) : Bool :=
  decide (outer.start ≤ inner.start) && decide (inner.stop ≤ outer.stop)

mutual

/-- A tree with comments in their places: each is a child of the smallest node around it. -/
def withComments (comments : List Node) : Node → Node
  | ⟨kind, role, start, stop, children⟩ =>
      let own := comments.filter fun comment => !children.any (·.covers comment)
      ⟨kind, role, start, stop, merge (eachWithComments comments children) own⟩

/-- Siblings with the comments inside them in their places. -/
def eachWithComments (comments : List Node) : List Node → List Node
  | [] => []
  | node :: nodes =>
      node.withComments (comments.filter node.covers) :: eachWithComments comments nodes

end

end Node

/-- A parsed file. If the text is not a Go file, `brokenAt` is the line where that shows, and the
root has no children. -/
structure Tree where
  root : Node
  brokenAt : Option Nat

namespace Tree

def isBroken (tree : Tree) : Bool := tree.brokenAt.isSome

/-- Keywords that something has to follow. -/
def openKeywords : List String :=
  ["package", "import", "const", "type", "var", "func", "struct", "interface", "map", "chan", "go", "defer",
    "goto", "if", "else", "for", "range", "switch", "select", "case", "default"]

/-- Whether a line break after a token can end a line of a block or list. -/
def endsLine (token : Token) : Bool :=
  match token.kind with
  | .mark => [")", "]", "\x7d", "++", "--"].contains token.text
  | .word => !openKeywords.contains token.text
  | .bad | .eof | .comment => false
  | _ => true

/-- Whether line breaks count between brackets: in blocks and braces, and in grouped declarations, which
a keyword stands before. -/
def linesCountIn (before token : Token) : Bool :=
  token.isMark "\x7b" || ["import", "var", "const", "type"].any before.isWord

/-- Brackets that stay open, innermost first, each with whether line breaks count in it. -/
def openBrackets (before : Token) (opened : List Bool) : List Token → List Bool
  | [] => opened
  | token :: tokens =>
      let opened :=
        if ["(", "[", "\x7b"].any token.isMark then linesCountIn before token :: opened
        else if [")", "]", "\x7d"].any token.isMark then opened.tail
        else opened
      openBrackets token opened tokens

/-- Whether a line can end after tokens, of which `last` is the last one. -/
def endsLineAfter (tokens : List Token) (last : Token) : Bool :=
  (openBrackets default [] tokens).headD true && endsLine last

/-- Number of line breaks that follow each other directly, after other blanks. -/
def lineBreaks (rest : List Char) : Nat :=
  ((rest.dropWhile fun c => Lexeme.isSpace c && c != '\n').takeWhile (· == '\n')).length

/-- The line where a mark is missing at the end of a text: after the last lexeme, and after the line
breaks that end the last line. -/
def missingLine (source : String) (lexemes tokens : List Token) : Nat :=
  let last := (lexemes.dropLast.getLast?).getD default
  let line := Text.lineNumber source last.stop
  if endsLineAfter tokens (tokens.getLast?.getD default) && !(last.kind == .comment && last.newLine) then
    line + lineBreaks (Text.slice source last.stop (Text.size source)).toList
  else line

/-- Whether a token after others begins a line of a block or list. -/
def beginsLine (before : List Token) (last token : Token) : Bool :=
  last.isMark "\x7b" || last.isMark ";" || (token.newLine && endsLineAfter before last)

/-- The line where a text stops being a Go file. At its end it is where the missing mark would go. A
lexeme that is none, or a token that cannot begin a line, is at fault itself; elsewhere something is
missing after the last token before. -/
def troubleLine (source : String) (lexemes tokens : List Token) (trouble : Grammar.Trouble) : Nat :=
  let before := tokens.take (tokens.length - trouble.point)
  let point := (tokens.drop before.length).headD default
  match before.getLast? with
  | none => Text.lineNumber source point.start
  | some last =>
      if point.kind == .eof || trouble.point = 0 then missingLine source lexemes before
      else if point.kind == .bad || trouble.point = trouble.item || beginsLine before last point then
        Text.lineNumber source point.start
      else Text.lineNumber source last.start

/-- The tree of a text. -/
def parse (source : String) : Tree :=
  let lexemes := Token.list source
  let (comments, tokens) := lexemes.partition (·.kind == .comment)
  let root (items : List Node) : Node := ⟨.sourceFile, none, 0, Text.size source, items⟩
  match (Grammar.nested (4 * tokens.length + 8)).fileItems tokens.length tokens with
  | .ok items =>
      ⟨if comments.isEmpty then root items
        else (root items).withComments (comments.map (·.leaf .comment)), none⟩
  | .error trouble => ⟨root [], some (troubleLine source lexemes tokens trouble)⟩

end Tree
end TraceWeave.Go
