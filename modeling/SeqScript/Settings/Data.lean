import SeqScript.Bindings
import SeqScript.Value.Scalar

/-!
Data as a file of settings holds it: scalars, sequences and mappings, nested in any way. The
entries of a mapping keep their order.
-/
namespace SeqScript

inductive Data where
  | scalar (s : Scalar)
  | sequence (items : List Data)
  | mapping (entries : List (Text × Data))
  deriving Repr, Inhabited

namespace Data

def none : Data := .scalar .none

def positive? : Data → Option Nat
  | .scalar (.number x) =>
    match x.toInt? with
    | some (.ofNat (n + 1)) => some (n + 1)
    | _ => Option.none
  | _ => Option.none

end Data

end SeqScript
