import SeqScript.Proofs.Fault.Place
import SeqScript.Tree.Summary
import SeqScript.Value.Heap

/-! Messages and the places behind them. The data of a report has the message that the report was made
from, unless that message itself ends like a place. No message of a running script does. -/
namespace SeqScript

namespace Cause

def Plain (c : Cause) : Prop := Report.withoutSuffix c.message = c.message

theorem plainEnd {c : Cause} (ends : c.message.EndsPlain) : c.Plain :=
  (Report.withoutSuffixKeeps c.message).mpr ends.notInPlace

def shown? : Cause → Option Text
  | .missingElement literal _ => some literal
  | .argumentType _ _ type | .operandType type | .indexType _ type => some type
  | _ => none

theorem plainMessage {c : Cause} (running : c.id.category = .runtime)
    (shown : ∀ t ∈ c.shown?, t.EndsPlain) : c.Plain := by
  unfold Plain
  cases c with
  | indexOutOfRange index kind length =>
    have space : text " of length " = text " of length" ++ [unit ' '] := rfl
    simp only [message, space, ← List.append_assoc]
    simp only [List.append_assoc _ [unit ' '], List.singleton_append]
    exact (Report.withoutSuffixKeeps _).mpr
      (Text.notInPlaceBehind _ (by decide) (by decide) (Number.colonlessText _))
  | missingElement literal index =>
    exact plainEnd ((shown literal rfl).behind _)
  | argumentType function expected type =>
    exact plainEnd ((shown type rfl).behind _)
  | operandType type => exact plainEnd ((shown type rfl).behind _)
  | indexType kind type => exact plainEnd ((shown type rfl).behind _)
  | undefinedVariable | undefinedFunction | argumentCount | notSubscriptable | fractionalIndex
  | timedOut => exact plainEnd (Text.EndsPlain.behind (by decide) _)
  | aborted | frozenList => exact plainEnd (by decide)
  | unterminatedString | unexpectedCharacter | invalidEscape | unexpectedToken | expectedCloser
  | undefinedName | builtinTarget => cases running

theorem plainWords {c : Cause} (running : c.id.category = .runtime) (own : c.shown? = none) :
    c.Plain := plainMessage running fun t shown => by rw [own] at shown; cases shown

theorem plainShown {c : Cause} (running : c.id.category = .runtime) {t : Text}
    (shown : c.shown? = some t) (ends : t.EndsPlain) : c.Plain :=
  plainMessage running fun u member => by
    rw [shown] at member
    exact Option.mem_some.mp member ▸ ends

end Cause

theorem Heap.typeNamePlain (h : Heap) (v : Value) : (h.typeName v).EndsPlain := by
  have scalar (s : Scalar) : s.typeName.EndsPlain := by cases s <;> exact rfl
  have sequence (kind : SequenceKind) : kind.name.EndsPlain := by cases kind <;> exact rfl
  cases v with
  | scalar s => exact scalar s
  | object r => exact sequence (h.kind r)

theorem Expr.sequenceSummaryPlain (limits : Limits) (kind : SequenceKind)
    (elements : List (Option Expr)) (span : Span) :
    ((Expr.sequence kind elements span).summary limits).EndsPlain := by
  have closer : kind.closer.EndsPlain := by cases kind <;> decide
  rw [Expr.summary, Summary.abbreviated]
  split
  · exact closer.behind _
  · exact closer.behind _

theorem Cause.Plain.data {c : Cause} (plain : c.Plain) (place : Option Location) :
    (Fault.report ⟨c, place⟩).data.message = c.message := by
  cases place with
  | none =>
    simp only [Fault.report, Report.make, Report.data, Report.locationSuffix, List.append_nil]
    exact plain
  | some l => exact Report.withoutSuffixBehind c.message l

end SeqScript
