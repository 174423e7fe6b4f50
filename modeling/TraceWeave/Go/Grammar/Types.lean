import TraceWeave.Go.Grammar.Basic

/-! Types and parameter lists. -/
namespace TraceWeave.Go
namespace Grammar

/-- Words that begin a type of their own and so cannot name one. -/
def isTypeKeyword (token : Token) : Bool :=
  token.kind == .word && ["func", "struct", "interface", "map", "chan"].contains token.text

/-- Whether a token can begin a type without parentheses around it. -/
def beginsType (token : Token) : Bool :=
  token.kind == .word || ["*", "[", "<-", "~"].any token.isMark

variable (g : Grammar)

/-- `A | B`, a union of types. -/
def typeUnion (kind : Kind) (lineEnds : Bool) : Reader Node := do
  match ← Reader.separated lineEnds "|" (g.type lineEnds) with
  | first :: rest => return .spanning kind first rest
  | [] => Reader.stuck

/-- `[A, B]` after the name of a generic type or function. -/
def typeArguments : Reader Node := do
  let opening ← Reader.mark "["
  let arguments ← Reader.commaList "]" (g.typeUnion .typeElem false)
  let closing ← Reader.mark "]"
  if arguments.isEmpty then Reader.stuck
  else return .build .typeArguments opening.start closing.stop arguments

/-- `T`, `p.T`, `T[A]` or `p.T[A]`. -/
def namedType (lineEnds : Bool) : Reader Node := do
  let name ← Reader.takeIf fun token => token.kind == .word && !isTypeKeyword token
  let base ←
    if ← Reader.nextIs lineEnds "." then
      let _ ← Reader.mark "."
      let member ← Reader.word
      pure (Node.build .qualifiedType name.start member.stop
        [(name.leaf .packageIdentifier).withRole .package, (member.leaf .typeIdentifier).withRole .name])
    else pure (name.leaf .typeIdentifier)
  if ← Reader.nextIs lineEnds "[" then
    match ← Reader.attempt g.typeArguments with
    | some arguments =>
        return .build .genericType base.start arguments.stop
          [base.withRole .type, arguments.withRole .typeArguments]
    | none => return base
  else return base

/-- One entry of a parameter list, before runs of names are joined to the type that ends them. -/
inductive Parameter where
  | bare (name : Token)
  | typed (name : Token) (type : Node)
  | unnamed (type : Node)
  | variadic (start : Nat) (name : Option Token) (type : Node)

/-- `...T`, with or without a name before it. -/
def variadicParameter (name : Option Token) : Reader Parameter := do
  let dots ← Reader.mark "..."
  let type ← g.type false
  return .variadic (name.elim dots.start Token.start) name type

/-- `x T`, as long as an entry can end after it. -/
def typedParameter : Reader Parameter := do
  let name ← Reader.word
  let type ← g.type false
  let next ← Reader.peek
  if next.isMark "," || next.isMark ")" then return .typed name type else Reader.stuck

def parameter : Reader Parameter := do
  let token ← Reader.peek
  let second ← Reader.peekSecond
  if token.isMark "..." then g.variadicParameter none
  else if token.kind == .word && !isTypeKeyword token then
    if second.isMark "..." then
      let name ← Reader.take
      g.variadicParameter (some name)
    else if second.isMark "," || second.isMark ")" then return .bare (← Reader.take)
    else if second.isMark "." then return .unnamed (← g.type false)
    else Reader.either g.typedParameter (.unnamed <$> g.type false)
  else return .unnamed (← g.type false)

/-- A declaration of some names, possibly none, with their type. -/
def parameterDeclaration (names : List Token) (type : Node) : Node :=
  let named := names.map fun name => (name.leaf .identifier).withRole .name
  .spanning .parameterDeclaration (named.headD (type.withRole .type))
    (if named.isEmpty then [] else named.tail ++ [type.withRole .type])

/-- A name that turned out to be a type. -/
def typeOnly (name : Token) : Node := parameterDeclaration [] (name.leaf .typeIdentifier)

/-- Declarations of the entries, where `names` are the bare names just before them. Bare names
belong to the next entry with a name and a type, and are types themselves if there is none. -/
def groupParameters (names : List Token) : List Parameter → List Node
  | [] => names.map typeOnly
  | .bare name :: rest => groupParameters (names ++ [name]) rest
  | .typed name type :: rest => parameterDeclaration (names ++ [name]) type :: groupParameters [] rest
  | .unnamed type :: rest => names.map typeOnly ++ parameterDeclaration [] type :: groupParameters [] rest
  | .variadic start name type :: rest =>
      let named := name.toList.map fun name => (name.leaf .identifier).withRole .name
      names.map typeOnly ++
        Node.build .variadicParameterDeclaration start type.stop (named ++ [type.withRole .type]) ::
          groupParameters [] rest

def parameters : Reader Node := do
  let opening ← Reader.mark "("
  let entries ← Reader.commaList ")" g.parameter
  let closing ← Reader.mark ")"
  return .build .parameterList opening.start closing.stop (groupParameters [] entries)

/-- The result of a function: a list, a type, or nothing. -/
def result (lineEnds : Bool) : Reader (List Node) := do
  if ← Reader.nextIs lineEnds "(" then return [(← g.parameters).withRole .result]
  else if ← Reader.nextOnLine lineEnds beginsType then return [(← g.type lineEnds).withRole .result]
  else return []

/-- Parameters and result. -/
def signature (lineEnds : Bool) : Reader (Node × List Node) := do
  let parameters ← g.parameters
  let result ← g.result lineEnds
  return (parameters, parameters.withRole .parameters :: result)

/-- The end of a list of children, or of what stands before them. -/
def endOf (before : Nat) (children : List Node) : Nat :=
  match children.getLast? with
  | some last => last.stop
  | none => before

def functionType (lineEnds : Bool) : Reader Node := do
  let head ← Reader.keyword "func"
  let (_, children) ← g.signature lineEnds
  return .build .functionType head.start (endOf head.stop children) children

/-- `x, y T` in a struct. -/
def namedFields : Reader (List Node) := do
  let names ← Reader.separated false "," Reader.word
  let type ← g.type true
  return names.map (fun name => (name.leaf .fieldIdentifier).withRole .name) ++ [type.withRole .type]

/-- `T`, `p.T` or `*T` in a struct. -/
def embeddedField : Reader (Nat × List Node) := do
  let token ← Reader.peek
  if token.isMark "*" then
    let star ← Reader.take
    return (star.start, [(← g.namedType true).withRole .type])
  else
    let type ← g.namedType true
    return (type.start, [type.withRole .type])

/-- The tag of a field. -/
def fieldTag : Reader (List Node) := do
  let token ← Reader.peek
  if token.newLine then return []
  else if token.kind == .interpreted then
    let tag ← Reader.take
    return [(tag.leaf .interpretedStringLiteral).withRole .tag]
  else if token.kind == .raw then
    let tag ← Reader.take
    return [(tag.leaf .rawStringLiteral).withRole .tag]
  else return []

/-- Whether a field can end before a token. -/
def endsField (token : Token) : Bool :=
  token.newLine || token.isMark ";" || token.isMark "\x7d" || token.kind == .interpreted || token.kind == .raw

def fieldDeclaration : Reader Node := do
  let token ← Reader.peek
  let second ← Reader.peekSecond
  let named : Reader (Nat × List Node) := do
    let children ← g.namedFields
    return (token.start, children)
  let (start, children) ←
    if token.isMark "*" || endsField second || second.isMark "." then g.embeddedField
    else if second.isMark "[" then
      Reader.either (do
        let found ← named
        if endsField (← Reader.peek) then return found else Reader.stuck) g.embeddedField
    else named
  let tag ← fieldTag
  return .build .fieldDeclaration start (endOf token.stop (children ++ tag)) (children ++ tag)

def structType : Reader Node := do
  let head ← Reader.keyword "struct"
  let opening ← Reader.mark "\x7b"
  let fields ← Reader.lineList "\x7d" g.fieldDeclaration
  let closing ← Reader.mark "\x7d"
  return .build .structType head.start closing.stop
    [.build .fieldDeclarationList opening.start closing.stop fields]

/-- A method or a union of types in an interface. -/
def interfaceElement : Reader Node := do
  let token ← Reader.peek
  let second ← Reader.peekSecond
  if token.kind == .word && second.isMark "(" && !isTypeKeyword token then
    let name ← Reader.take
    let (_, children) ← g.signature true
    return .build .methodElem name.start (endOf name.stop children)
      ((name.leaf .fieldIdentifier).withRole .name :: children)
  else g.typeUnion .typeElem true

def interfaceType : Reader Node := do
  let head ← Reader.keyword "interface"
  let _ ← Reader.mark "\x7b"
  let elements ← Reader.lineList "\x7d" g.interfaceElement
  let closing ← Reader.mark "\x7d"
  return .build .interfaceType head.start closing.stop elements

def mapType (lineEnds : Bool) : Reader Node := do
  let head ← Reader.keyword "map"
  let _ ← Reader.mark "["
  let key ← g.type false
  let _ ← Reader.mark "]"
  let value ← g.type lineEnds
  return .build .mapType head.start value.stop [key.withRole .key, value.withRole .value]

def channelType (lineEnds : Bool) : Reader Node := do
  let token ← Reader.peek
  if token.isMark "<-" then
    let head ← Reader.take
    let _ ← Reader.keyword "chan"
    let value ← g.type lineEnds
    return .build .channelType head.start value.stop [value.withRole .value]
  else
    let head ← Reader.keyword "chan"
    if ← Reader.nextIs false "<-" then
      let _ ← Reader.take
    let value ← g.type lineEnds
    return .build .channelType head.start value.stop [value.withRole .value]

/-- `[]T`, `[n]T` and, where a literal may follow, `[...]T`. -/
def arrayType (lineEnds : Bool) : Reader Node := do
  let head ← Reader.mark "["
  if ← Reader.nextIs false "]" then
    let _ ← Reader.take
    let element ← g.type lineEnds
    return .build .sliceType head.start element.stop [element.withRole .element]
  else
    let length ← g.expression .enclosed
    let _ ← Reader.mark "]"
    let element ← g.type lineEnds
    return .build .arrayType head.start element.stop [length.withRole .length, element.withRole .element]

/-- `[...]T`, whose length is that of the literal that follows. -/
def openArrayType : Reader Node := do
  let head ← Reader.mark "["
  let _ ← Reader.mark "..."
  let _ ← Reader.mark "]"
  let element ← g.type false
  return .build .implicitLengthArrayType head.start element.stop [element.withRole .element]

/-- A type in parentheses. -/
def parenthesizedType : Reader Node := do
  let opening ← Reader.mark "("
  let type ← g.type false
  let closing ← Reader.mark ")"
  return .build .parenthesizedType opening.start closing.stop [type]

/-- A type with a mark before it. -/
def markedType (text : String) (kind : Kind) (lineEnds : Bool) : Reader Node := do
  let head ← Reader.mark text
  let type ← g.type lineEnds
  return .build kind head.start type.stop [type]

/-- A type, where the types inside it are read by `g`. -/
def typeStep (lineEnds : Bool) : Reader Node := do
  let token ← Reader.peek
  if token.isWord "func" then g.functionType lineEnds
  else if token.isWord "struct" then g.structType
  else if token.isWord "interface" then g.interfaceType
  else if token.isWord "map" then g.mapType lineEnds
  else if token.isWord "chan" || token.isMark "<-" then g.channelType lineEnds
  else if token.kind == .word then g.namedType lineEnds
  else if token.isMark "[" then g.arrayType lineEnds
  else if token.isMark "*" then g.markedType "*" .pointerType lineEnds
  else if token.isMark "~" then g.markedType "~" .negatedType lineEnds
  else if token.isMark "(" then g.parenthesizedType
  else Reader.stuck

/-- `K, V any` in a list of type parameters. -/
def typeParameterDeclaration : Reader Node := do
  let names ← Reader.separated false "," Reader.word
  let constraint ← g.typeUnion .typeConstraint false
  let named := names.map fun name => (name.leaf .identifier).withRole .name
  return .spanning .typeParameterDeclaration (named.headD constraint) (named.tail ++ [constraint.withRole .type])

def typeParameters : Reader Node := do
  let opening ← Reader.mark "["
  let entries ← Reader.commaList "]" g.typeParameterDeclaration
  let closing ← Reader.mark "]"
  if entries.isEmpty then Reader.stuck
  else return .build .typeParameterList opening.start closing.stop entries

end Grammar
end TraceWeave.Go
