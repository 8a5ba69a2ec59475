import SeqScript.Fault.Report
import SeqScript.Names
import SeqScript.Proofs.Fault.Template
import SeqScript.Proofs.Number.Whole
import SeqScript.Tree.Parser

/-! The two descriptions of an error. The registry has a template for it, and whoever raises it
writes a message and a context of its own. Filled from the context, the template gives the message,
but for the two tokens that a message names otherwise than the context does. Nothing is said about
timeouts, nor about the identifiers whose template is the bare message. -/
namespace SeqScript
open Template (Piece)

def ErrorId.pieces : ErrorId → List Piece
  | .unterminatedString => [.words (text "Unterminated string literal")]
  | .unexpectedCharacter => [.words (text "Unexpected character: "), .placeholder (text "char")]
  | .invalidEscape => [.words (text "Invalid escape sequence: \\"), .placeholder (text "sequence")]
  | .unexpectedToken => [.words (text "Unexpected token: "), .placeholder (text "token")]
  | .expectedToken | .typeMismatch => [.placeholder (text "message")]
  | .missingElement => [.words (text "Missing element expression in "),
      .placeholder (text "literal")]
  | .undefinedVariable => [.words (text "Variable "), .placeholder (text "name"),
      .words (text " is not defined")]
  | .undefinedFunction => [.words (text "Function "), .placeholder (text "name"),
      .words (text " is not defined")]
  | .aborted => [.words (text "Execution aborted")]
  | .frozenMutation => [.words (text "Cannot mutate frozen "), .placeholder (text "type")]
  | .indexOutOfRange => [.words (text "Index "), .placeholder (text "index"),
      .words (text " out of range for "), .placeholder (text "type"),
      .words (text " of length "), .placeholder (text "length")]
  | .timedOut => [.words (text "Function "), .placeholder (text "name"),
      .words (text " timed out after "), .placeholder (text "timeoutMs"), .words (text "ms")]
  | .undefinedName => [.words (text "Name "), .placeholder (text "name"),
      .words (text " is not defined")]
  | .builtinTarget => [.words (text "Cannot assign to builtin "), .placeholder (text "name")]

theorem ErrorId.templatePieces (id : ErrorId) :
    id.definition.template = id.pieces.flatMap Piece.written := by cases id <;> rfl

theorem ErrorId.piecesClosed (id : ErrorId) : ∀ p ∈ id.pieces, p.Closed := by
  cases id <;> decide

namespace Cause

def Nameless : Cause → Prop
  | .unexpectedToken kind _ => kind = .endOfInput ∨ kind = .newline
  | _ => False

def shownContext : Cause → Bindings Scalar
  | .unexpectedToken kind value => [(text "token", .string (shownToken kind value))]
  | c => c.context.getD []

theorem shownContextOwn {c : Cause} (visible : ¬ c.Nameless) :
    c.shownContext = c.context.getD [] := by
  cases c with
  | unexpectedToken kind value =>
    obtain ⟨noEnd, noLine⟩ := not_or.mp visible
    cases kind <;> first | contradiction | rfl
  | _ => rfl

theorem messageRendered (c : Cause) (worded : c.id.definition.template ≠ Template.hole "message")
    (inTime : c.id ≠ .timedOut) :
    Template.render c.id.definition.template c.shownContext = c.message := by
  rw [ErrorId.templatePieces, Template.renderPieces (ErrorId.piecesClosed _)]
  cases c with
  | expectedCloser | argumentCount | argumentType | operandType | notSubscriptable
  | fractionalIndex | indexType => exact absurd rfl worded
  | timedOut => exact absurd rfl inTime
  | unterminatedString | aborted | frozenList => rfl
  | indexOutOfRange index kind length =>
    have shown : let values := shownContext (.indexOutOfRange index kind length)
        Template.shown values (text "index") = index.toText ∧
        Template.shown values (text "type") = kind.name ∧
        Template.shown values (text "length") = (Number.ofNat length).toText := ⟨rfl, rfl, rfl⟩
    simp [id, ErrorId.pieces, Piece.filled, shown, message]
  | unexpectedCharacter | invalidEscape | unexpectedToken | missingElement | undefinedVariable
  | undefinedFunction | undefinedName | builtinTarget =>
    simp [id, ErrorId.pieces, Piece.filled, Template.shown, shownContext, context, Bindings.get?,
      Scalar.plain, message]

end Cause

namespace Fault

/- Whatever refuses a text, a tree or a call, or stops a run, does so with some fault. If its
identifier has a template of its own, the message of its report is that template, filled from its
context, and the place behind it. Only the end of the input and the end of a line, which have no
text to show, stand in the message under a name that is not in the context. -/
theorem messageFromTemplate (f : Fault)
    (worded : f.report.id.definition.template ≠ Template.hole "message")
    (inTime : f.report.id ≠ .timedOut) :
    f.report.message = Template.render f.report.id.definition.template f.cause.shownContext ++
        Report.locationSuffix f.report.location ∧
      (¬ f.cause.Nameless → f.cause.shownContext = f.report.context.getD []) := by
  refine ⟨?_, Cause.shownContextOwn⟩
  rw [show f.report.id = f.cause.id from rfl, f.cause.messageRendered worded inTime]
  rfl

/- A host's tree of a name that no text reads as, and that reads like a placeholder itself. -/
theorem bracedNameMessage : ∃ f : Fault,
    (Names.check .standard
      (.expression (.name (text "\x7bname\x7d") ⟨⟨2, 3, 7⟩, ⟨2, 9, 13⟩⟩)) []).1 = .error f ∧
      f.report.id.definition.template ≠ Template.hole "message" ∧ f.report.id ≠ .timedOut ∧
      ¬ f.cause.Nameless ∧
      Template.render f.report.id.definition.template (f.report.context.getD []) ++ text " at 2:3" =
        text "Name \x7bname\x7d is not defined at 2:3" := by
  let f : Fault := ⟨.undefinedName (text "\x7bname\x7d"), some ⟨2, 3, 7⟩⟩
  have raised : (Names.check .standard
      (.expression (.name (text "\x7bname\x7d") ⟨⟨2, 3, 7⟩, ⟨2, 9, 13⟩⟩)) []).1 = .error f := rfl
  have worded : f.report.id.definition.template ≠ Template.hole "message" := by decide
  have inTime : f.report.id ≠ .timedOut := by decide
  have visible : ¬ f.cause.Nameless := False.elim
  obtain ⟨message, own⟩ := messageFromTemplate f worded inTime
  rw [own visible] at message
  exact ⟨f, raised, worded, inTime, visible, message.symm⟩

theorem endOfInputNamed : ∃ f, Parser.script (text "(") = .error f ∧
    f.report.id.definition.template ≠ Template.hole "message" ∧
    f.report.message = text "Unexpected token: end of input at 1:2" ∧
    f.report.message ≠ Template.render f.report.id.definition.template
      (f.report.context.getD []) ++ Report.locationSuffix f.report.location := by
  have lexed : Lexer.tokenize (text "(") = .ok [⟨.openParen, text "(", ⟨.first, ⟨1, 2, 1⟩⟩⟩,
      ⟨.endOfInput, [], ⟨⟨1, 2, 1⟩, ⟨1, 2, 1⟩⟩⟩] := by decide +kernel
  refine ⟨⟨.unexpectedToken .endOfInput [], some ⟨1, 2, 1⟩⟩, ?_, by decide, by decide, by decide⟩
  rw [Parser.script, lexed]
  rfl

end Fault

end SeqScript
