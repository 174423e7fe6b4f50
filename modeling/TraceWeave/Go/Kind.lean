/-! Kinds of nodes of a Go syntax tree, and the roles children play in their parents. -/
namespace TraceWeave.Go

/-- What a node is. `token` is a mark or operator that only shows because it has a role. -/
inductive Kind where
  | sourceFile | comment | token
  | packageClause | importDeclaration | importSpec | importSpecList
  | constDeclaration | constSpec | varDeclaration | varSpec | varSpecList
  | typeDeclaration | typeSpec | typeAlias
  | functionDeclaration | methodDeclaration
  | typeParameterList | typeParameterDeclaration | typeConstraint
  | parameterList | parameterDeclaration | variadicParameterDeclaration
  | identifier | blankIdentifier | dot | fieldIdentifier | typeIdentifier | packageIdentifier | labelName
  | genericType | typeArguments | qualifiedType | pointerType | structType | fieldDeclarationList
  | fieldDeclaration | interfaceType | methodElem | typeElem | arrayType | implicitLengthArrayType
  | sliceType | mapType | channelType | functionType | negatedType | parenthesizedType
  | block | expressionStatement | sendStatement | receiveStatement | incStatement | decStatement
  | assignmentStatement | shortVarDeclaration | labeledStatement | fallthroughStatement
  | breakStatement | continueStatement | gotoStatement | returnStatement | goStatement
  | deferStatement | ifStatement | forStatement | forClause | rangeClause
  | expressionSwitchStatement | expressionCase | defaultCase | typeSwitchStatement | typeCase
  | selectStatement | communicationCase | emptyStatement
  | expressionList | callExpression | argumentList | variadicArgument | selectorExpression
  | indexExpression | sliceExpression | typeAssertionExpression | typeConversionExpression
  | typeInstantiationExpression | compositeLiteral | literalValue | literalElement | keyedElement
  | funcLiteral | unaryExpression | binaryExpression | parenthesizedExpression
  | intLiteral | floatLiteral | imaginaryLiteral | runeLiteral
  | interpretedStringLiteral | rawStringLiteral
  | nilLiteral | trueLiteral | falseLiteral | iotaLiteral
deriving DecidableEq, Repr, Inhabited

/-- What a child is to its parent. -/
inductive Role where
  | name | path | type | value | receiver | parameters | typeParameters | typeArguments | result | body
  | left | right | operator | operand | field | function | arguments | index | start | stop | capacity
  | initializer | condition | consequence | alternative | update | communication | guardName | label
  | channel | length | element | key | package | tag
deriving DecidableEq, Repr

namespace Kind

/-- Tokens are part of the text of their parent, not nodes in their own right. -/
def isNamed : Kind → Bool
  | .token => false
  | _ => true

/-- Declarations that open a function scope at file level. -/
def isFunction : Kind → Bool
  | .functionDeclaration | .methodDeclaration => true
  | _ => false

def isParameter : Kind → Bool
  | .parameterDeclaration | .variadicParameterDeclaration => true
  | _ => false

/-- `x := v` and `x = v`, the statements with targets on their left. -/
def isAssignment : Kind → Bool
  | .shortVarDeclaration | .assignmentStatement => true
  | _ => false

end Kind
end TraceWeave.Go
