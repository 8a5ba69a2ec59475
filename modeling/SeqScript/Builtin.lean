import SeqScript.Text.Basic

/-!
The functions that every script can call without a host.
-/
namespace SeqScript

inductive Builtin where
  | len | append | extend | list | tuple | print
  deriving DecidableEq, Repr

namespace Builtin

def name : Builtin → Text
  | .len => text "len"
  | .append => text "append"
  | .extend => text "extend"
  | .list => text "list"
  | .tuple => text "tuple"
  | .print => text "print"

def all : List Builtin := [.len, .append, .extend, .list, .tuple, .print]

theorem memAll (b : Builtin) : b ∈ all := by cases b <;> decide

def names : List Text := all.map name

end Builtin

end SeqScript
