import TraceWeave.Go.Grammar.Expressions

/-! Statements and the declarations that can stand among them. -/
namespace TraceWeave.Go
namespace Grammar

def isAssignmentOperator (token : Token) : Bool :=
  ["=", "+=", "-=", "*=", "/=", "%=", "&=", "|=", "^=", "<<=", ">>=", "&^="].any token.isMark

variable (g : Grammar)

/-- What a simple statement is, once its first expressions are read. -/
def simpleRest (mode right : Mode) (left : Node) : Reader Node := do
  let token ← Reader.peek
  let here := !(mode.lineEnds && token.newLine)
  if here && token.isMark ":=" then
    let _ ← Reader.take
    let values ← g.expressionList right
    return .build .shortVarDeclaration left.start values.stop
      [left.withRole .left, values.withRole .right]
  else if here && isAssignmentOperator token then
    let _ ← Reader.take
    let values ← g.expressionList right
    return .build .assignmentStatement left.start values.stop
      [left.withRole .left, operatorNode token, values.withRole .right]
  else
    match left.children with
    | [only] =>
        if here && token.isMark "++" then
          let _ ← Reader.take
          return .build .incStatement only.start token.stop [only]
        else if here && token.isMark "--" then
          let _ ← Reader.take
          return .build .decStatement only.start token.stop [only]
        else if here && token.isMark "<-" then
          let _ ← Reader.take
          let value ← g.expression right
          return .build .sendStatement only.start value.stop
            [only.withRole .channel, value.withRole .value]
        else return .build .expressionStatement only.start only.stop [only]
    | _ => Reader.stuck

/-- An expression, assignment, short declaration, increment or send. -/
def simpleStatement (mode right : Mode) : Reader Node := do
  let left ← g.expressionList mode
  g.simpleRest mode right left

/-- Statements up to a token that ends the list, which stays. -/
def statementList (ends : Token → Bool) : Reader (List Node) := do
  if ends (← Reader.peek) then return []
  let first ← g.statement
  let rest ← Reader.repeating do
    if ends (← Reader.peek) then return none
    Reader.terminator
    if ends (← Reader.peek) then return none
    return some (← g.statement)
  return first :: rest

def blockStep : Reader Node := do
  let opening ← Reader.mark "\x7b"
  let statements ← g.statementList (·.isMark "\x7d")
  let closing ← Reader.mark "\x7d"
  return .build .block opening.start closing.stop statements

/-- The expression of an expression statement. -/
def soleExpression (statement : Node) : Reader Node :=
  match statement.kind, statement.children with
  | .expressionStatement, [expression] => return expression
  | _, _ => Reader.stuck

/-- A mode for the assigned side of a header, after which a block cannot follow. -/
def assignedSide (mode : Mode) : Mode := { mode with literals := true }

def ifStatement : Reader Node := do
  let head ← Reader.keyword "if"
  let first ← g.simpleStatement .header (assignedSide .header)
  let (initializer, condition) ←
    if ← Reader.nextIs false ";" then
      let _ ← Reader.take
      pure ([first.withRole .initializer], ← g.expression .header)
    else pure ([], ← soleExpression first)
  let consequence ← g.block
  let alternative ←
    if ← Reader.nextOnLine true (·.isWord "else") then
      let _ ← Reader.take
      let token ← Reader.peek
      let other ← if token.isWord "if" then g.statement else g.block
      pure [other.withRole .alternative]
    else pure []
  let children := initializer ++ [condition.withRole .condition, consequence.withRole .consequence] ++ alternative
  return .build .ifStatement head.start (endOf head.stop children) children

/-- `range xs`, after the assigned names if there are any. -/
def rangeClause (start : Nat) (left : List Node) : Reader Node := do
  let _ ← Reader.keyword "range"
  let right ← g.expression .header
  return .build .rangeClause start right.stop (left ++ [right.withRole .right])

/-- The rest of a three part clause, from its first semicolon on. -/
def forClause (start : Nat) (initializer : List Node) : Reader Node := do
  let _ ← Reader.mark ";"
  let condition ←
    if ← Reader.nextIs false ";" then pure []
    else pure [(← g.expression .header).withRole .condition]
  let second ← Reader.mark ";"
  let update ←
    if ← Reader.nextIs false "\x7b" then pure []
    else pure [(← g.simpleStatement .header .header).withRole .update]
  return .build .forClause start (endOf second.stop update) (initializer ++ condition ++ update)

/-- What stands between `for` and the block. -/
def forHead : Reader (List Node) := do
  let token ← Reader.peek
  if token.isMark "\x7b" then return []
  else if token.isMark ";" then return [← g.forClause token.start []]
  else if token.isWord "range" then return [← g.rangeClause token.start []]
  else
    let left ← g.expressionList .header
    let assign ← Reader.peek
    let second ← Reader.peekSecond
    if (assign.isMark ":=" || assign.isMark "=") && second.isWord "range" then
      let _ ← Reader.take
      return [← g.rangeClause left.start [left.withRole .left]]
    else
      let first ← g.simpleRest .header (assignedSide .header) left
      if ← Reader.nextIs false ";" then
        return [← g.forClause first.start [first.withRole .initializer]]
      else return [← soleExpression first]

def forStatement : Reader Node := do
  let head ← Reader.keyword "for"
  let clause ← g.forHead
  let body ← g.block
  return .build .forStatement head.start body.stop (clause ++ [body.withRole .body])

/-- Whether a token ends the statements of a clause. -/
def endsClause (token : Token) : Bool :=
  token.isMark "\x7d" || token.isWord "case" || token.isWord "default"

/-- The colon of a clause and its statements. -/
def clauseRest (kind : Kind) (start : Nat) (head : List Node) : Reader Node := do
  let colon ← Reader.mark ":"
  let statements ← g.statementList endsClause
  return .build kind start (endOf colon.stop statements) (head ++ statements)

/-- `case` with what `head` reads, or `default`. -/
def clause (kind : Kind) (head : Reader (List Node)) : Reader (Option Node) := do
  let token ← Reader.peek
  if token.isWord "case" then
    let _ ← Reader.take
    let children ← head
    return some (← g.clauseRest kind token.start children)
  else if token.isWord "default" then
    let _ ← Reader.take
    return some (← g.clauseRest .defaultCase token.start [])
  else return none

/-- The braces of a switch or select. -/
def clauses (kind : Kind) (head : Reader (List Node)) : Reader (List Node × Nat) := do
  let _ ← Reader.mark "\x7b"
  let found ← Reader.repeating (g.clause kind head)
  let closing ← Reader.mark "\x7d"
  return (found, closing.stop)

def expressionSwitch (start : Nat) (head : List Node) : Reader Node := do
  let (found, stop) ← g.clauses .expressionCase do
    return [(← g.expressionList .enclosed).withRole .value]
  return .build .expressionSwitchStatement start stop (head ++ found)

/-- A type switch from its guard on; `subject` is what stands before `.(type)`. -/
def typeSwitch (start : Nat) (initializer : List Node) (subject : Node) : Reader Node := do
  let _ ← Reader.take
  let _ ← Reader.take
  let _ ← Reader.take
  let _ ← Reader.take
  let head ←
    match subject.kind, subject.children with
    | .expressionStatement, [value] => pure [value.withRole .value]
    | .shortVarDeclaration, [names, values] =>
        match values.children with
        | [value] => pure [names.withRole .guardName, value.withRole .value]
        | _ => Reader.stuck
    | _, _ => Reader.stuck
  let (found, stop) ← g.clauses .typeCase do
    return (← Reader.separated false "," (g.type false)).map (Node.withRole .type)
  return .build .typeSwitchStatement start stop (initializer ++ head ++ found)

def switchStatement : Reader Node := do
  let head ← Reader.keyword "switch"
  let mode := { Mode.header with guarded := true }
  if ← Reader.nextIs false "\x7b" then g.expressionSwitch head.start []
  else
    let first ← g.simpleStatement mode (assignedSide mode)
    if ← atTypeGuard then g.typeSwitch head.start [] first
    else if ← Reader.nextIs false ";" then
      let _ ← Reader.take
      let initializer := [first.withRole .initializer]
      if ← Reader.nextIs false "\x7b" then g.expressionSwitch head.start initializer
      else
        let second ← g.simpleStatement mode (assignedSide mode)
        if ← atTypeGuard then g.typeSwitch head.start initializer second
        else
          let value ← soleExpression second
          g.expressionSwitch head.start (initializer ++ [value.withRole .value])
    else
      let value ← soleExpression first
      g.expressionSwitch head.start [value.withRole .value]

/-- A send or a receive in a clause of a select. -/
def communication : Reader (List Node) := do
  let left ← g.expressionList .enclosed
  let token ← Reader.peek
  if token.isMark ":=" || token.isMark "=" then
    let _ ← Reader.take
    let right ← g.expression .enclosed
    return [(Node.build .receiveStatement left.start right.stop
      [left.withRole .left, right.withRole .right]).withRole .communication]
  else
    match left.children with
    | [only] =>
        if token.isMark "<-" then
          let _ ← Reader.take
          let value ← g.expression .enclosed
          return [(Node.build .sendStatement only.start value.stop
            [only.withRole .channel, value.withRole .value]).withRole .communication]
        else
          return [(Node.build .receiveStatement only.start only.stop
            [only.withRole .right]).withRole .communication]
    | _ => Reader.stuck

def selectStatement : Reader Node := do
  let head ← Reader.keyword "select"
  let (found, stop) ← g.clauses .communicationCase g.communication
  return .build .selectStatement head.start stop found

/-- `= values` after the names of a variable or constant. -/
def initialValues : Reader (List Node) := do
  if ← Reader.nextIs true "=" then
    let _ ← Reader.take
    return [(← g.expressionList .statement).withRole .value]
  else return []

def varSpec : Reader Node := do
  let names ← Reader.separated false "," Reader.word
  let named := names.map fun name => (name.leaf .identifier).withRole .name
  let children ←
    if ← Reader.nextIs false "=" then g.initialValues
    else do
      let type ← g.type true
      pure (type.withRole .type :: (← g.initialValues))
  match named ++ children with
  | first :: rest => return .spanning .varSpec first rest
  | [] => Reader.stuck

/-- Names of constants. The commas between them carry the same role. -/
def constNames : Reader (List Node) := do
  let first ← Reader.word
  let rest ← Reader.repeating do
    if ← Reader.nextIs true "," then
      let comma ← Reader.take
      let name ← Reader.word
      return some [(comma.leaf .token).withRole .name, (name.leaf .identifier).withRole .name]
    else return none
  return (first.leaf .identifier).withRole .name :: rest.flatten

def constSpec : Reader Node := do
  let names ← constNames
  let children ←
    if ← Reader.nextIs true "=" then g.initialValues
    else if ← Reader.nextOnLine true (fun token => beginsType token || token.isMark "(") then do
      let type ← g.type true
      let values ← g.initialValues
      if values.isEmpty then Reader.stuck else pure (type.withRole .type :: values)
    else pure []
  match names ++ children with
  | first :: rest => return .spanning .constSpec first rest
  | [] => Reader.stuck

/-- The rest of a type declaration after its name and parameters. -/
def typeSpecRest (name : Token) (parameters : List Node) : Reader Node := do
  let head := (name.leaf .typeIdentifier).withRole .name :: parameters
  let kind ←
    if ← Reader.nextIs false "=" then
      let _ ← Reader.take
      pure Kind.typeAlias
    else pure Kind.typeSpec
  let type ← g.type true
  return .build kind name.start type.stop (head ++ [type.withRole .type])

def typeSpec : Reader Node := do
  let name ← Reader.word
  if ← Reader.nextIs false "[" then
    Reader.either
      (do
        let parameters ← g.typeParameters
        g.typeSpecRest name [parameters.withRole .typeParameters])
      (g.typeSpecRest name [])
  else g.typeSpecRest name []

/-- One specification, or several in parentheses that each end with a terminator. -/
def specifications (spec : Reader Node) : Reader (List Node × Option (Nat × Nat)) := do
  if ← Reader.nextIs false "(" then
    let opening ← Reader.take
    let found ← Reader.closedLineList ")" spec
    let closing ← Reader.mark ")"
    return (found, some (opening.start, closing.stop))
  else return ([← spec], none)

/-- A declaration from its keyword to its last specification. -/
def declarationNode (kind : Kind) (head : Token) (found : List Node × Option (Nat × Nat)) : Node :=
  match found.2 with
  | some (_, stop) => .build kind head.start stop found.1
  | none => .build kind head.start (endOf head.stop found.1) found.1

def constDeclaration : Reader Node := do
  let head ← Reader.keyword "const"
  return declarationNode .constDeclaration head (← specifications g.constSpec)

def typeDeclaration : Reader Node := do
  let head ← Reader.keyword "type"
  return declarationNode .typeDeclaration head (← specifications g.typeSpec)

def varDeclaration : Reader Node := do
  let head ← Reader.keyword "var"
  match ← specifications g.varSpec with
  | (found, some (start, stop)) =>
      return .build .varDeclaration head.start stop [.build .varSpecList start stop found]
  | found => return declarationNode .varDeclaration head found

/-- `break`, `continue` or `goto` with a label on the same line. -/
def jump (kind : Kind) (labelNeeded : Bool) : Reader Node := do
  let head ← Reader.take
  if (← Reader.nextOnLine (!labelNeeded) (·.kind == .word)) then
    let label ← Reader.take
    return .build kind head.start label.stop [label.leaf .labelName]
  else if labelNeeded then Reader.stuck
  else return head.leaf kind

def returnStatement : Reader Node := do
  let head ← Reader.keyword "return"
  let token ← Reader.peek
  if (← Reader.atTerminator) || token.isMark "\x7d" then return head.leaf .returnStatement
  else
    let values ← g.expressionList .statement
    return .build .returnStatement head.start values.stop [values]

/-- `go f()` or `defer f()`. -/
def launch (kind : Kind) : Reader Node := do
  let head ← Reader.take
  let call ← g.expression .statement
  return .build kind head.start call.stop [call]

/-- A label and the statement it names; at the end of a list there may be none. -/
def labeledStatement : Reader Node := do
  let label ← Reader.word
  let colon ← Reader.mark ":"
  let name := (label.leaf .labelName).withRole .label
  if endsClause (← Reader.peek) then return .build .labeledStatement label.start colon.stop [name]
  else
    let statement ← g.statement
    return .build .labeledStatement label.start statement.stop [name, statement]

/-- A statement, where the phrases inside it are read by `g`. -/
def statementStep : Reader Node := do
  let token ← Reader.peek
  let second ← Reader.peekSecond
  if token.isMark "\x7b" then g.block
  else if token.isMark ";" then
    let _ ← Reader.take
    return token.leaf .emptyStatement
  else if token.kind != .word then g.simpleStatement .statement .statement
  else
    match token.text with
    | "const" => g.constDeclaration
    | "type" => g.typeDeclaration
    | "var" => g.varDeclaration
    | "return" => g.returnStatement
    | "go" => g.launch .goStatement
    | "defer" => g.launch .deferStatement
    | "if" => g.ifStatement
    | "for" => g.forStatement
    | "switch" => g.switchStatement
    | "select" => g.selectStatement
    | "fallthrough" =>
        let _ ← Reader.take
        return token.leaf .fallthroughStatement
    | "break" => jump .breakStatement false
    | "continue" => jump .continueStatement false
    | "goto" => jump .gotoStatement true
    | _ =>
        if second.isMark ":" && !second.newLine then g.labeledStatement
        else g.simpleStatement .statement .statement

end Grammar
end TraceWeave.Go
