import SeqScript.Tree.Printer

/-!
Short forms of sequences for error messages. A listing that is too long ends with an ellipsis
after as many of its first items as the limits allow.
-/
namespace SeqScript

structure Limits where
  maxElements : Int
  maxLength : Int
  deriving DecidableEq, Repr

def Limits.standard : Limits := ⟨4, 32⟩

namespace Summary

def ellipsis : Text := text "..."

def listing (kind : SequenceKind) (items : List Text) : Text :=
  kind.opener ++ Text.join comma items ++ (kind.lastComma items.length).flatten ++ kind.closer

def shortened (kind : SequenceKind) (items : List Text) (kept : Nat) : Text :=
  kind.opener ++ Text.join comma (items.take kept ++ [ellipsis]) ++ kind.closer

def keptCount (kind : SequenceKind) (items : List Text) (maxLength : Int) : Nat → Nat
  | 0 => 0
  | n + 1 =>
    if (shortened kind items (n + 1)).length ≤ maxLength then n + 1
    else keptCount kind items maxLength n

def abbreviated (kind : SequenceKind) (items : List Text) (limits : Limits) : Text :=
  let whole := listing kind items
  if items.length ≤ limits.maxElements ∧ whole.length ≤ limits.maxLength then whole
  else
    shortened kind items
      (keptCount kind items limits.maxLength (min items.length limits.maxElements.toNat))

end Summary

namespace Expr

mutual

def summary (limits : Limits) : Expr → Text
  | sequence kind elements _ => Summary.abbreviated kind (slotSummaries limits elements) limits
  | e => e.printed

def slotSummaries (limits : Limits) : List (Option Expr) → List Text
  | [] => []
  | none :: rest => missingElement :: slotSummaries limits rest
  | some e :: rest => e.summary limits :: slotSummaries limits rest

end

end Expr

end SeqScript
