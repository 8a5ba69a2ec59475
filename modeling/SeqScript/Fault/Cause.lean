import SeqScript.Fault.Registry
import SeqScript.Token.Basic

/-!
Faults: why a source text was refused or an evaluation stopped, and where. A cause carries what
it is about; its identifier, its message and its context follow from it.
-/
namespace SeqScript

inductive SequenceKind where
  | list | tuple
  deriving DecidableEq, Repr, Inhabited

namespace SequenceKind

def name : SequenceKind → Text
  | .list => text "list"
  | .tuple => text "tuple"

def opener : SequenceKind → Text
  | .list => text "["
  | .tuple => text "("

def closer : SequenceKind → Text
  | .list => text "]"
  | .tuple => text ")"

end SequenceKind

inductive Closer where
  | paren | bracket
  deriving DecidableEq, Repr, Inhabited

namespace Closer

def kind : Closer → TokenKind
  | .paren => .closeParen
  | .bracket => .closeBracket

def symbol : Closer → Text
  | .paren => text ")"
  | .bracket => text "]"

def hint (closer : Closer) (found : TokenKind) : Text :=
  if found = .endOfInput then
    match closer with
    | .paren => text ". Hint: Check for unclosed parenthesis"
    | .bracket => text ". Hint: Check for unclosed bracket"
  else if found = .comma then []
  else text ". Hint: Separate elements with a comma"

end Closer

inductive Cause where
  | unterminatedString
  | unexpectedCharacter (u : CodeUnit)
  | invalidEscape (sequence : Text)
  | unexpectedToken (kind : TokenKind) (value : Text)
  | expectedCloser (closer : Closer) (found : TokenKind)
  | missingElement (literal : Text) (index : Nat)
  | undefinedVariable (name : Text)
  | undefinedFunction (name : Text)
  | argumentCount (function : Text) (expected actual : Nat)
  | argumentType (function expected actual : Text)
  | operandType (type : Text)
  | notSubscriptable (type : Text)
  | fractionalIndex (kind : SequenceKind) (index : Number)
  | indexType (kind : SequenceKind) (type : Text)
  | aborted
  | frozenList
  | indexOutOfRange (index : Number) (kind : SequenceKind) (length : Nat)
  | timedOut (function : Text) (milliseconds : Number)
  | undefinedName (name : Text)
  | builtinTarget (name : Text)
  deriving DecidableEq, Repr

namespace Cause

def id : Cause → ErrorId
  | .unterminatedString => .unterminatedString
  | .unexpectedCharacter _ => .unexpectedCharacter
  | .invalidEscape _ => .invalidEscape
  | .unexpectedToken _ _ => .unexpectedToken
  | .expectedCloser _ _ => .expectedToken
  | .missingElement _ _ => .missingElement
  | .undefinedVariable _ => .undefinedVariable
  | .undefinedFunction _ => .undefinedFunction
  | .argumentCount _ _ _ | .argumentType _ _ _ | .operandType _ | .notSubscriptable _
  | .fractionalIndex _ _ | .indexType _ _ => .typeMismatch
  | .aborted => .aborted
  | .frozenList => .frozenMutation
  | .indexOutOfRange _ _ _ => .indexOutOfRange
  | .timedOut _ _ => .timedOut
  | .undefinedName _ => .undefinedName
  | .builtinTarget _ => .builtinTarget

def shownToken (kind : TokenKind) (value : Text) : Text :=
  match kind with
  | .endOfInput => text "end of input"
  | .newline => text "newline"
  | _ => value

def message : Cause → Text
  | .unterminatedString => text "Unterminated string literal"
  | .unexpectedCharacter u => text "Unexpected character: " ++ [u]
  | .invalidEscape sequence => text "Invalid escape sequence: \\" ++ sequence
  | .unexpectedToken kind value => text "Unexpected token: " ++ shownToken kind value
  | .expectedCloser closer found => text "Expected " ++ closer.symbol ++ closer.hint found
  | .missingElement literal _ => text "Missing element expression in " ++ literal
  | .undefinedVariable name => text "Variable " ++ name ++ text " is not defined"
  | .undefinedFunction name => text "Function " ++ name ++ text " is not defined"
  | .argumentCount function expected actual =>
    function ++ text "() takes " ++ Text.ofNat expected ++
      text (if expected = 1 then " argument (" else " arguments (") ++
      Text.ofNat actual ++ text " given)"
  | .argumentType function expected actual =>
    function ++ text "() expects " ++ expected ++ text ", got " ++ actual
  | .operandType type => text "Bad operand type for unary -: " ++ type
  | .notSubscriptable type => type ++ text " is not subscriptable"
  | .fractionalIndex kind index =>
    kind.name ++ text " index " ++ index.toText ++ text " is not an integer"
  | .indexType kind type => kind.name ++ text " indices must be integers, not " ++ type
  | .aborted => text "Execution aborted"
  | .frozenList => text "Cannot mutate frozen list"
  | .indexOutOfRange index kind length =>
    text "Index " ++ index.toText ++ text " out of range for " ++ kind.name ++
      text " of length " ++ (Number.ofNat length).toText
  | .timedOut function milliseconds =>
    text "Function " ++ function ++ text " timed out after " ++ milliseconds.toText ++ text "ms"
  | .undefinedName name => text "Name " ++ name ++ text " is not defined"
  | .builtinTarget name => text "Cannot assign to builtin " ++ name

def nat (n : Nat) : Scalar := .number (.ofNat n)

def context : Cause → Option (Bindings Scalar)
  | .unterminatedString => none
  | .unexpectedCharacter u => some [(text "char", .string [u])]
  | .invalidEscape sequence => some [(text "sequence", .string sequence)]
  | .unexpectedToken _ value => some [(text "token", .string value)]
  | .expectedCloser closer found => some [
      (text "expected", .string closer.kind.name), (text "actual", .string found.name)]
  | .missingElement literal index => some [
      (text "literal", .string literal), (text "index", nat index)]
  | .undefinedVariable name | .undefinedFunction name | .undefinedName name
  | .builtinTarget name => some [(text "name", .string name)]
  | .argumentCount function expected actual => some [
      (text "function", .string function), (text "expected", nat expected),
      (text "actual", nat actual)]
  | .argumentType function expected actual => some [
      (text "function", .string function), (text "expected", .string expected),
      (text "actual", .string actual)]
  | .operandType type => some [(text "op", .string (text "-")), (text "type", .string type)]
  | .notSubscriptable type | .indexType _ type => some [(text "type", .string type)]
  | .fractionalIndex _ index => some [
      (text "type", .string (text "number")), (text "index", .number index)]
  | .aborted => some []
  | .frozenList => some [(text "type", .string (text "list"))]
  | .indexOutOfRange index kind length => some [
      (text "index", .number index), (text "type", .string kind.name),
      (text "length", nat length)]
  | .timedOut function milliseconds => some [
      (text "functionName", .string function), (text "timeoutMs", .number milliseconds)]

end Cause

structure Fault where
  cause : Cause
  location : Option Location
  deriving DecidableEq, Repr

end SeqScript
