import TraceWeave.Go.Grammar.Types

/-! Expressions. Operators are first read as a flat list and then joined by precedence. -/
namespace TraceWeave.Go
namespace Grammar

/-- The kind of a token that is an expression by itself; other words are identifiers. -/
def soleKind? (token : Token) : Option Kind :=
  match token.kind with
  | .int => some .intLiteral
  | .float => some .floatLiteral
  | .imaginary => some .imaginaryLiteral
  | .rune => some .runeLiteral
  | .interpreted => some .interpretedStringLiteral
  | .raw => some .rawStringLiteral
  | .word =>
      match token.text with
      | "nil" => some .nilLiteral
      | "true" => some .trueLiteral
      | "false" => some .falseLiteral
      | "iota" => some .iotaLiteral
      | _ => some .identifier
  | _ => none

def isUnaryOperator (token : Token) : Bool := ["+", "-", "!", "^", "*", "&", "<-"].any token.isMark

/-- How tight a binary operator binds; zero for other tokens. -/
def precedence (token : Token) : Nat :=
  if token.kind != .mark then 0
  else if ["*", "/", "%", "<<", ">>", "&", "&^"].contains token.text then 5
  else if ["+", "-", "|", "^"].contains token.text then 4
  else if ["==", "!=", "<", "<=", ">", ">="].contains token.text then 3
  else if token.text == "&&" then 2
  else if token.text == "||" then 1
  else 0

def operatorNode (token : Token) : Node := (token.leaf .token).withRole .operator

def binaryNode (left : Node) (operator : Token) (right : Node) : Node :=
  .build .binaryExpression left.start right.stop
    [left.withRole .left, operatorNode operator, right.withRole .right]

/-- Join the operators of one level, from left to right; looser ones stay in the list. -/
def joinLevel (level : Nat) (first : Node) : List (Token × Node) → Node × List (Token × Node)
  | [] => (first, [])
  | (operator, operand) :: rest =>
      if precedence operator == level then joinLevel level (binaryNode first operator operand) rest
      else
        let (joined, later) := joinLevel level operand rest
        (first, (operator, joined) :: later)

/-- The tree of a flat list of operands, tightest operators first. -/
def joinOperators (first : Node) (rest : List (Token × Node)) : Node :=
  ([5, 4, 3, 2, 1].foldl (fun (found : Node × List (Token × Node)) level =>
    joinLevel level found.1 found.2) (first, rest)).1

/-- An operand with the operators before it, the last one closest. -/
def applyUnary (operators : List Token) (operand : Node) : Node :=
  operators.foldr (fun operator inner => .build .unaryExpression operator.start inner.stop
    [operatorNode operator, inner.withRole .operand]) operand

/-- An expression read as the name of a type: `x` or `p.x`. -/
def asTypeName? (node : Node) : Option Node :=
  match node.kind with
  | .identifier => some { node with kind := .typeIdentifier }
  | .selectorExpression =>
      match node.children with
      | [operand, field] =>
          if operand.kind == .identifier then
            some { node with kind := .qualifiedType, children :=
              [{ operand with kind := .packageIdentifier, role := some .package },
                { field with kind := .typeIdentifier, role := some .name }] }
          else none
      | _ => none
  | _ => none

variable (g : Grammar)

def expressionList (mode : Mode) : Reader Node := do
  match ← Reader.separated mode.lineEnds "," (g.expression mode) with
  | first :: rest => return .spanning .expressionList first rest
  | [] => Reader.stuck

/-- An argument, which may be spread with dots. -/
def argument : Reader Node := do
  let value ← g.expression .enclosed
  if ← Reader.nextIs false "..." then
    let dots ← Reader.take
    return .build .variadicArgument value.start dots.stop [value]
  else return value

def argumentList : Reader Node := do
  let opening ← Reader.mark "("
  let arguments ← Reader.commaList ")" g.argument
  let closing ← Reader.mark ")"
  return .build .argumentList opening.start closing.stop arguments

/-- Arguments of `new` and `make`: the first is a type. -/
def allocationArguments : Reader Node := do
  let opening ← Reader.mark "("
  if ← Reader.nextIs false ")" then
    let closing ← Reader.take
    return .build .argumentList opening.start closing.stop []
  else
    let type ← g.type false
    let rest ← Reader.repeating do
      if ← Reader.nextIs false "," then
        let _ ← Reader.take
        if ← Reader.nextIs false ")" then return none
        return some (← g.expression .enclosed)
      else return none
    let closing ← Reader.mark ")"
    return .build .argumentList opening.start closing.stop (type :: rest)

def callNode (function : Node) (typeArguments : List Node) (arguments : Node) : Node :=
  .build .callExpression function.start arguments.stop
    (function.withRole .function :: typeArguments.map (Node.withRole .typeArguments) ++
      [arguments.withRole .arguments])

def conversionNode (type : Node) (stop : Nat) (operand : Node) : Node :=
  .build .typeConversionExpression type.start stop [type.withRole .type, operand.withRole .operand]

/-- `(x)` after a type. -/
def conversion (type : Node) : Reader Node := do
  let _ ← Reader.mark "("
  let operand ← g.expression .enclosed
  if ← Reader.nextIs false "," then
    let _ ← Reader.take
  let closing ← Reader.mark ")"
  return conversionNode type closing.stop operand

def compositeNode (type body : Node) : Node :=
  .build .compositeLiteral type.start body.stop [type.withRole .type, body.withRole .body]

def literalElement : Reader Node := do
  let value ← if ← Reader.nextIs false "\x7b" then g.literalValue else g.expression .enclosed
  return .build .literalElement value.start value.stop [value]

def element : Reader Node := do
  let first ← g.literalElement
  if ← Reader.nextIs false ":" then
    let _ ← Reader.take
    let second ← g.literalElement
    return .build .keyedElement first.start second.stop [first, second]
  else return first

/-- The braces of a composite literal. -/
def literalValueStep : Reader Node := do
  let opening ← Reader.mark "\x7b"
  let elements ← Reader.commaList "\x7d" g.element
  let closing ← Reader.mark "\x7d"
  return .build .literalValue opening.start closing.stop elements

/-- A type at the start of an expression: a literal of it, or a conversion to it. -/
def typeOperand : Reader Node := do
  let type ← Reader.either g.openArrayType (g.type false)
  let mayHaveLiteral := [Kind.mapType, .sliceType, .arrayType, .implicitLengthArrayType,
    .structType].contains type.kind
  if mayHaveLiteral && (← Reader.nextIs false "\x7b") then
    return compositeNode type (← g.literalValue)
  else g.conversion type

/-- A function literal, or a conversion to a function type. -/
def functionOperand : Reader Node := do
  let head ← Reader.keyword "func"
  let (_, children) ← g.signature false
  if ← Reader.nextIs false "\x7b" then
    let body ← g.block
    return .build .funcLiteral head.start body.stop (children ++ [body.withRole .body])
  else g.conversion (.build .functionType head.start (endOf head.stop children) children)

/-- An expression in parentheses, or a conversion to a type in parentheses. -/
def parenthesizedOperand : Reader Node :=
  Reader.either
    (do
      let opening ← Reader.mark "("
      let inner ← g.expression .enclosed
      let closing ← Reader.mark ")"
      return .build .parenthesizedExpression opening.start closing.stop [inner])
    (do
      let type ← g.parenthesizedType
      g.conversion type)

def operand (mode : Mode) : Reader Node := do
  let token ← Reader.peek
  let second ← Reader.peekSecond
  if token.isMark "(" then g.parenthesizedOperand
  else if token.isWord "func" then g.functionOperand
  else if token.isMark "[" || isTypeKeyword token then g.typeOperand
  else if (token.isWord "new" || token.isWord "make") && second.isMark "(" &&
      !(mode.lineEnds && second.newLine) then
    let name ← Reader.take
    return callNode (name.leaf .identifier) [] (← g.allocationArguments)
  else
    match soleKind? token with
    | some kind =>
        let _ ← Reader.take
        return token.leaf kind
    | none => Reader.stuck

/-- What follows the dot after an operand: a field, or a type in parentheses. -/
def selection (operand : Node) : Reader Node := do
  let _ ← Reader.mark "."
  if ← Reader.nextIs false "(" then
    let _ ← Reader.take
    let type ← g.type false
    let closing ← Reader.mark ")"
    return .build .typeAssertionExpression operand.start closing.stop
      [operand.withRole .operand, type.withRole .type]
  else
    let field ← Reader.word
    return .build .selectorExpression operand.start field.stop
      [operand.withRole .operand, (field.leaf .fieldIdentifier).withRole .field]

/-- An optional expression before one of two marks. -/
def optionalExpression (role : Role) : Reader (List Node) := do
  if (← Reader.nextIs false ":") || (← Reader.nextIs false "]") then return []
  else return [(← g.expression .enclosed).withRole role]

/-- `[i]`, `[i:j]` or `[i:j:k]` after an operand. -/
def indexing (operand : Node) : Reader Node := do
  let _ ← Reader.mark "["
  let first ← g.optionalExpression .start
  if ← Reader.nextIs false ":" then
    let _ ← Reader.take
    let second ← g.optionalExpression .stop
    let third ←
      if (← Reader.nextIs false ":") && !second.isEmpty then
        let _ ← Reader.take
        pure [(← g.expression .enclosed).withRole .capacity]
      else pure []
    let closing ← Reader.mark "]"
    return .build .sliceExpression operand.start closing.stop
      (operand.withRole .operand :: first ++ second ++ third)
  else
    let closing ← Reader.mark "]"
    match first with
    | [index] =>
        return .build .indexExpression operand.start closing.stop
          [operand.withRole .operand, index.withRole .index]
    | _ => Reader.stuck

/-- The types of a list of type arguments that are not unions. -/
def plainTypes? (arguments : Node) : Option (List Node) :=
  arguments.children.mapM fun element =>
    match element.children with
    | [type] => some type
    | _ => none

/-- A call whose operand is followed by type arguments. With a type name before them and one plain
argument after them it is a conversion to a generic type. -/
def genericCall (operand typeArguments : Node) : Reader Node := do
  let arguments ← g.argumentList
  match asTypeName? operand, arguments.children with
  | some name, [value] =>
      if value.kind == .variadicArgument then return callNode operand [typeArguments] arguments
      else
        let type := Node.build .genericType name.start typeArguments.stop
          [name.withRole .type, typeArguments.withRole .typeArguments]
        return conversionNode type arguments.stop value
  | _, _ => return callNode operand [typeArguments] arguments

/-- Brackets after an operand: type arguments if a call or a literal follows, else an index, else
type arguments of a function that is not called. -/
def bracketed (mode : Mode) (operand : Node) : Reader Node := do
  let before ← get
  match ← Reader.attempt g.typeArguments with
  | none => g.indexing operand
  | some arguments =>
      if ← Reader.nextIs mode.lineEnds "(" then g.genericCall operand arguments
      else
        let literal ← Reader.nextIs mode.lineEnds "\x7b"
        match asTypeName? operand with
        | none =>
            set before
            g.indexing operand
        | some name =>
            if literal && mode.literals then
              let type := Node.build .genericType name.start arguments.stop
                [name.withRole .type, arguments.withRole .typeArguments]
              return compositeNode type (← g.literalValue)
            else
              let after ← get
              set before
              match ← Reader.attempt (g.indexing operand) with
              | some found => return found
              | none =>
                  match plainTypes? arguments with
                  | some types =>
                      set after
                      return .build .typeInstantiationExpression name.start arguments.stop
                        (name.withRole .type :: types)
                  | none => Reader.stuck

/-- Whether the next tokens are `.(type)`. -/
def atTypeGuard : Reader Bool := fun tokens =>
  match tokens with
  | dot :: opening :: word :: closing :: _ =>
      .ok (dot.isMark "." && opening.isMark "(" && word.isWord "type" && closing.isMark ")", tokens)
  | _ => .ok (false, tokens)

/-- One more piece after an operand, if there is one. -/
def suffix? (mode : Mode) (operand : Node) : Reader (Option Node) := do
  if mode.guarded && (← atTypeGuard) then return none
  else if ← Reader.nextIs mode.lineEnds "." then return some (← g.selection operand)
  else if ← Reader.nextIs mode.lineEnds "(" then return some (callNode operand [] (← g.argumentList))
  else if ← Reader.nextIs mode.lineEnds "[" then return some (← g.bracketed mode operand)
  else if mode.literals && (← Reader.nextIs mode.lineEnds "\x7b") then
    match asTypeName? operand with
    | some type => return some (compositeNode type (← g.literalValue))
    | none => return none
  else return none

/-- An operand with all that follows it, in at most so many pieces. -/
def suffixes (mode : Mode) : Nat → Node → Reader Node
  | 0, operand => return operand
  | rounds + 1, operand => do
      match ← g.suffix? mode operand with
      | some longer => suffixes mode rounds longer
      | none => return operand

def unary (mode : Mode) : Reader Node := do
  let operators ← Reader.repeating do
    if ← Reader.nextOnLine false isUnaryOperator then return some (← Reader.take)
    else return none
  let operand ← g.operand mode
  let rounds := (← get).length
  return applyUnary operators (← g.suffixes mode rounds operand)

/-- An expression, where the phrases inside its brackets are read by `g`. -/
def expressionStep (mode : Mode) : Reader Node := do
  let first ← g.unary mode
  let rest ← Reader.repeating do
    if ← Reader.nextOnLine mode.lineEnds (fun token => precedence token != 0) then
      let operator ← Reader.take
      return some (operator, ← g.unary mode)
    else return none
  return joinOperators first rest

end Grammar
end TraceWeave.Go
