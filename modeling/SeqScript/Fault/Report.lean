import SeqScript.Fault.Cause

/-!
Reports: errors as they are handed to a host. The message of a report ends with its location. The
data of a report is what it was made from, save that one location at the end of a message is
always taken for the report's own.
-/
namespace SeqScript

inductive ReportClass where
  | general | lexer | parse | validation | runtime | timeout | abort
  deriving DecidableEq, Repr

namespace ReportClass

def name : ReportClass → Text
  | .general => text "SkiffError"
  | .lexer => text "LexerError"
  | .parse => text "ParseError"
  | .validation => text "ValidationError"
  | .runtime => text "RuntimeError"
  | .timeout => text "TimeoutError"
  | .abort => text "AbortError"

def all : List ReportClass :=
  [.general, .lexer, .parse, .validation, .runtime, .timeout, .abort]

theorem memAll (c : ReportClass) : c ∈ all := by cases c <;> decide

def label : ReportClass → Text
  | .general => text "Error"
  | .lexer => text "Lexer error"
  | .parse => text "Parse error"
  | .validation => text "Validation error"
  | .runtime | .timeout | .abort => text "Runtime error"

def category? : ReportClass → Option ErrorCategory
  | .general => none
  | .lexer => some .lexer
  | .parse => some .parse
  | .validation => some .validation
  | .runtime | .timeout | .abort => some .runtime

def isA (c : ReportClass) : ReportClass → Bool
  | .general => true
  | .runtime => c == .runtime || c == .timeout || c == .abort
  | other => c == other

end ReportClass

structure ReportData where
  id : ErrorId
  message : Text
  location : Option Location
  context : Option (Bindings Scalar)
  deriving DecidableEq, Repr

structure Report where
  reportClass : ReportClass
  id : ErrorId
  message : Text
  location : Option Location
  context : Option (Bindings Scalar)
  deriving DecidableEq, Repr

namespace Report

def locationSuffix : Option Location → Text
  | some l => l.suffix
  | none => []

def make (c : ReportClass) (d : ReportData) : Report :=
  ⟨c, d.id, d.message ++ locationSuffix d.location, d.location, d.context⟩

def withoutSuffix (t : Text) : Text :=
  let (column, before) := Numeral.splitDigits t.reverse
  match before with
  | [] => t
  | mark :: before =>
    let (line, before) := Numeral.splitDigits before
    let at_ := (text " at ").reverse
    if mark = unit ':' ∧ column ≠ [] ∧ line ≠ [] ∧ at_.isPrefixOf before then
      (before.drop at_.length).reverse
    else t

def data (r : Report) : ReportData := ⟨r.id, withoutSuffix r.message, r.location, r.context⟩

def line (r : Report) : Text :=
  let place := match r.location with
    | some l => text " at line " ++ Text.ofNat l.line
    | none => []
  r.reportClass.label ++ place ++ text ": " ++ r.data.message ++ text " [" ++ r.id.code ++
    text "]"

inductive Refusal where
  | missingId
  | unknownId (id : Text)
  | wrongCategory (expected : ErrorCategory) (id : Text)
  deriving DecidableEq, Repr

def Refusal.message : Refusal → Text
  | .missingId => text "errorId is required"
  | .unknownId id => text "Unknown error ID: " ++ id
  | .wrongCategory expected id =>
    text "Expected " ++ expected.name ++ text " error ID, got: " ++ id

/- The identifier of a code, if a report of this class may carry it. Only a general report tells
an empty code from an unknown one. -/
def checkId (c : ReportClass) (code : Text) : Except Refusal ErrorId :=
  match ErrorId.ofCode? code with
  | none => if c = .general ∧ code = [] then .error .missingId else .error (.unknownId code)
  | some id =>
    match c.category? with
    | none => .ok id
    | some category =>
      if id.category = category then .ok id else .error (.wrongCategory category code)

def ofCode (c : ReportClass) (code message : Text) (location : Option Location)
    (context : Option (Bindings Scalar)) : Except Refusal Report :=
  (checkId c code).map fun id => make c ⟨id, message, location, context⟩

def ofTemplate (code : Text) (context : Bindings Scalar) (location : Option Location) :
    Except Refusal Report :=
  match ErrorId.ofCode? code with
  | none => .error (.unknownId code)
  | some id =>
    .ok (make .general ⟨id, Template.render id.definition.template context, location, some context⟩)

end Report

namespace Cause

def reportClass : Cause → ReportClass
  | .timedOut _ _ => .timeout
  | .aborted => .abort
  | c =>
    match c.id.category with
    | .lexer => .lexer
    | .parse => .parse
    | .runtime => .runtime
    | .validation => .validation

end Cause

namespace Fault

def report (f : Fault) : Report :=
  .make f.cause.reportClass ⟨f.cause.id, f.cause.message, f.location, f.cause.context⟩

end Fault

end SeqScript
