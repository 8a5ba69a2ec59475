import SeqScript.Run.Context

/-!
Results of runs: the last value and the variables. One name has no place among the variables of a
result. A sequence that is bound to it stands behind them instead, and a variable that comes later
cannot take a name that this sequence answers itself.
-/
namespace SeqScript

structure RunResult where
  value : Value
  bindings : Bindings Value
  deriving DecidableEq, Repr

namespace SequenceKind

def answers : SequenceKind → List Text
  | .list => [text "length", text "isFrozen"]
  | .tuple => [text "length"]

def className : SequenceKind → Text
  | .list => text "SkiffList"
  | .tuple => text "SkiffTuple"

def refusal (kind : SequenceKind) (name : Text) : Text :=
  text "Cannot set property " ++ name ++ text " of #<" ++ kind.className ++
    text "> which has only a getter"

end SequenceKind

namespace RunResult

def behind? (h : Heap) : Value → Option SequenceKind
  | .object r => some (h.kind r)
  | .scalar _ => none

def blocked? (h : Heap) (behind : Option SequenceKind) : Bindings Value → Option (SequenceKind × Text)
  | [] => none
  | (name, v) :: rest =>
    match behind.filter fun kind => kind.answers.contains name with
    | some kind => some (kind, name)
    | none => blocked? h (if name = Bindings.unheldName then behind? h v else behind) rest

def refused (kind : SequenceKind) (name : Text) : Stop :=
  .failure (text "TypeError") (kind.refusal name)

def collect (h : Heap) (value : Value) (b : Bindings Value) : Except Stop RunResult :=
  match blocked? h none b with
  | some (kind, name) => .error (refused kind name)
  | none => .ok ⟨value, b.held⟩

end RunResult

end SeqScript
