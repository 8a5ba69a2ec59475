import SeqScript.Fault.Template

/-!
The registry of error identifiers: for each one its code, its category, a template of its message
and what a reader may do about it.
-/
namespace SeqScript

inductive ErrorCategory where
  | lexer | parse | runtime | validation
  deriving DecidableEq, Repr

def ErrorCategory.name : ErrorCategory → Text
  | .lexer => text "lexer"
  | .parse => text "parse"
  | .runtime => text "runtime"
  | .validation => text "validation"

inductive ErrorId where
  | unterminatedString | unexpectedCharacter | invalidEscape
  | unexpectedToken | expectedToken
  | missingElement | undefinedVariable | undefinedFunction | typeMismatch | aborted
  | frozenMutation | indexOutOfRange | timedOut
  | undefinedName | builtinTarget
  deriving DecidableEq, Repr, Inhabited

namespace ErrorId

structure Definition where
  code : Text
  category : ErrorCategory
  description : Text
  template : Text
  cause : Text
  resolution : Text
  deriving DecidableEq, Repr

open Template (hole)

def definition : ErrorId → Definition
  | .unterminatedString => {
      code := text "SKIFF-L001"
      category := .lexer
      description := text "Unterminated string literal"
      template := text "Unterminated string literal"
      cause := text "String opened with a quote but never closed before end of line."
      resolution := text "Add the matching closing quote." }
  | .unexpectedCharacter => {
      code := text "SKIFF-L002"
      category := .lexer
      description := text "Unexpected character"
      template := text "Unexpected character: " ++ hole "char"
      cause := text "Character is not part of Skiff syntax."
      resolution := text "Remove or replace the character." }
  | .invalidEscape => {
      code := text "SKIFF-L003"
      category := .lexer
      description := text "Invalid escape sequence"
      template := text "Invalid escape sequence: \\" ++ hole "sequence"
      cause := text "Backslash followed by an unsupported character in a string."
      resolution := text "Use \\n, \\t, \\r, \\\\, \\\" or \\'." }
  | .unexpectedToken => {
      code := text "SKIFF-P001"
      category := .parse
      description := text "Unexpected token"
      template := text "Unexpected token: " ++ hole "token"
      cause := text "Token cannot start or continue an expression here."
      resolution := text "Check for a missing operand, comma or bracket." }
  | .expectedToken => {
      code := text "SKIFF-P002"
      category := .parse
      description := text "Expected token"
      template := hole "message"
      cause := text "A required token such as a closing bracket is missing."
      resolution := text "Insert the expected token." }
  | .missingElement => {
      code := text "SKIFF-R001"
      category := .runtime
      description := text "Missing element expression"
      template := text "Missing element expression in " ++ hole "literal"
      cause := text "A sequence literal built outside the parser has an empty element slot."
      resolution := text "Fill every element slot before evaluating the tree." }
  | .undefinedVariable => {
      code := text "SKIFF-R002"
      category := .runtime
      description := text "Undefined variable"
      template := text "Variable " ++ hole "name" ++ text " is not defined"
      cause := text "Name read before any assignment or host binding."
      resolution := text "Assign the variable first or pass it in RuntimeOptions." }
  | .undefinedFunction => {
      code := text "SKIFF-R003"
      category := .runtime
      description := text "Undefined function"
      template := text "Function " ++ hole "name" ++ text " is not defined"
      cause := text "Called name is neither a builtin nor a host function."
      resolution := text "Check the spelling or register the host function." }
  | .typeMismatch => {
      code := text "SKIFF-R004"
      category := .runtime
      description := text "Type mismatch"
      template := hole "message"
      cause := text "Operation applied to a value of the wrong type."
      resolution := text "Convert the value or use an operation that accepts it." }
  | .aborted => {
      code := text "SKIFF-R005"
      category := .runtime
      description := text "Execution aborted"
      template := text "Execution aborted"
      cause := text "The host aborted the AbortSignal passed in RuntimeOptions."
      resolution := text "None needed; the host requested cancellation." }
  | .frozenMutation => {
      code := text "SKIFF-R006"
      category := .runtime
      description := text "Frozen value mutation"
      template := text "Cannot mutate frozen " ++ hole "type"
      cause := text "The list belongs to a context whose execution has finished."
      resolution := text "Copy the value with list() before mutating it." }
  | .indexOutOfRange => {
      code := text "SKIFF-R007"
      category := .runtime
      description := text "Index out of range"
      template := text "Index " ++ hole "index" ++ text " out of range for " ++ hole "type" ++
        text " of length " ++ hole "length"
      cause := text "Subscript outside [-length, length)."
      resolution := text "Check the length with len() before indexing." }
  | .timedOut => {
      code := text "SKIFF-R008"
      category := .runtime
      description := text "Function timeout"
      template := text "Function " ++ hole "name" ++ text " timed out after " ++
        hole "timeoutMs" ++ text "ms"
      cause := text "A host function exceeded RuntimeOptions.timeout."
      resolution := text "Raise the timeout or make the host function faster." }
  | .undefinedName => {
      code := text "SKIFF-V001"
      category := .validation
      description := text "Undefined name"
      template := text "Name " ++ hole "name" ++ text " is not defined"
      cause := text "Identifier or call target unknown before execution."
      resolution := text "Assign the name earlier in the script or bind it as a host value." }
  | .builtinTarget => {
      code := text "SKIFF-V002"
      category := .validation
      description := text "Reserved assignment target"
      template := text "Cannot assign to builtin " ++ hole "name"
      cause := text "Assignment target shadows a builtin function."
      resolution := text "Choose a different variable name." }

def code (id : ErrorId) : Text := id.definition.code

def category (id : ErrorId) : ErrorCategory := id.definition.category

def all : List ErrorId := [
  .unterminatedString, .unexpectedCharacter, .invalidEscape,
  .unexpectedToken, .expectedToken,
  .missingElement, .undefinedVariable, .undefinedFunction, .typeMismatch, .aborted,
  .frozenMutation, .indexOutOfRange, .timedOut,
  .undefinedName, .builtinTarget]

theorem memAll (id : ErrorId) : id ∈ all := by cases id <;> decide

def ofCode? (code : Text) : Option ErrorId := all.find? fun id => id.code = code

end ErrorId

end SeqScript
