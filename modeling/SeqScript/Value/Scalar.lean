import SeqScript.Number.Numeral
import SeqScript.Text.Quoted

/-!
Scalars: the values without identity. They are what literals denote, what settings hold and what
an error tells about its circumstances.
-/
namespace SeqScript

inductive Scalar where
  | none
  | bool (b : Bool)
  | number (x : Number)
  | string (t : Text)
  deriving DecidableEq, Repr, Inhabited

namespace Scalar

def typeName : Scalar → Text
  | .none => text "NoneType"
  | .bool _ => text "bool"
  | .number _ => text "number"
  | .string _ => text "string"

/- False, None, both zeros and the empty string are not; what is not a number is. -/
def truthy : Scalar → Bool
  | .none => false
  | .bool b => b
  | .number x => !x.isZero
  | .string t => !t.isEmpty

def same : Scalar → Scalar → Bool
  | .number x, .number y => x.same y
  | a, b => a == b

def written : Scalar → Text
  | .none => text "None"
  | .bool b => text (if b then "True" else "False")
  | .number x => x.toText
  | .string t => Quoted.write t

def plain : Scalar → Text
  | .none => text "null"
  | .bool b => text (if b then "true" else "false")
  | .number x => x.toText
  | .string t => t

end Scalar

end SeqScript
