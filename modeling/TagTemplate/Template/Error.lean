import TagTemplate.Source.Caret

/-! What can be wrong with a template. An error names the character that the template cannot have
at its place, and shows it under its line. -/
namespace TagTemplate.Template

/-- What a template breaks; `general` is what no other kind tells more exactly. -/
inductive Fault where
  | general
  | expressionExpected
  | invalidName
  | unexpectedToken
  | unexpectedEnd
  | invalidToken
  | nestingTooDeep
  deriving DecidableEq, Repr

def Fault.name : Fault → String
  | general => "TemplateSyntaxError"
  | expressionExpected => "ExpressionExpected"
  | invalidName => "InvalidMethodOrVariableName"
  | unexpectedToken => "UnexpectedToken"
  | unexpectedEnd => "UnexpectedEndOfInput"
  | invalidToken => "InvalidToken"
  | nestingTooDeep => "NestingTooDeep"

def Fault.message : Fault → String
  | general => "Syntax error"
  | expressionExpected => "Expression expected"
  | invalidName => "Invalid method or variable name"
  | unexpectedToken => "Unexpected token"
  | unexpectedEnd => "Unexpected end of input"
  | invalidToken => "Invalid token - expected a tag, string, or template string"
  | nestingTooDeep => "Nesting too deep"

structure SyntaxError where
  fault : Fault
  message : String
  source : List Char
  index : Nat
  index_lt : index < source.length
  deriving DecidableEq

namespace SyntaxError

def at? (fault : Fault) (message : String) (source : List Char) (index : Int) :
    Except Source.NoCharacter SyntaxError :=
  if h : 0 ≤ index ∧ index < source.length then
    .ok ⟨fault, message, source, index.toNat, by omega⟩
  else .error ⟨index, source.length⟩

def place (e : SyntaxError) : Source.Place :=
  Source.place e.source e.index

def trace (e : SyntaxError) : String :=
  Source.trace e.source e.index

def text (e : SyntaxError) : String :=
  e.message ++ "\n" ++ e.trace

end SyntaxError

/-- Why a source has no tree. An error beyond its source comes only from a caller who gives a
source other than the one being read. -/
inductive ReadError where
  | malformed (e : SyntaxError)
  | misplaced (e : Source.NoCharacter)
  deriving DecidableEq

end TagTemplate.Template
