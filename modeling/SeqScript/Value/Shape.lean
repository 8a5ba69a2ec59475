import SeqScript.Value.Written

/-!
The shape of values: what can be told of them without naming a reference. Sequences are numbered
in the order in which they are first entered, a sequence before its elements, and a sequence that
is met again is told by its number. So two values have one shape exactly when they look alike,
sharing and cycles included.
-/
namespace SeqScript

inductive Shape where
  | scalar (s : Scalar)
  | sequence (number : Nat) (kind : SequenceKind) (items : List Shape)
  | again (number : Nat)
  deriving Repr, Inhabited

namespace Heap

/- Something numbered behind some sequences, and all that were entered then, last first. -/
structure Numbered (h : Heap) (before : List Ref) (α : Type) where
  value : α
  entered : List Ref
  unseenLe : unseen h.refs entered ≤ unseen h.refs before

mutual

def shapeFrom (h : Heap) (entered : List Ref) (v : Value) : Numbered h entered Shape :=
  match v with
  | .scalar s => ⟨.scalar s, entered, Nat.le_refl _⟩
  | .object r =>
    if again : r ∈ entered then ⟨.again (entered.reverse.idxOf r), entered, Nat.le_refl _⟩
    else if known : h.holds r then
      have less := unseenLt (memRefs known) again
      let items := shapesFrom h (r :: entered) (h.items r)
      ⟨.sequence entered.length (h.kind r) items.value, items.entered,
        Nat.le_of_lt (Nat.lt_of_le_of_lt items.unseenLe less)⟩
    else ⟨.sequence entered.length .tuple [], r :: entered, unseenLe _ _ _⟩
termination_by (unseen h.refs entered, 0)

def shapesFrom (h : Heap) (entered : List Ref) (vs : List Value) : Numbered h entered (List Shape) :=
  match vs with
  | [] => ⟨[], entered, Nat.le_refl _⟩
  | v :: rest =>
    let first := shapeFrom h entered v
    have := first.unseenLe
    let others := shapesFrom h first.entered rest
    ⟨first.value :: others.value, others.entered, Nat.le_trans others.unseenLe first.unseenLe⟩
termination_by (unseen h.refs entered, vs.length + 1)
decreasing_by
  · exact Prod.Lex.right _ (by simp)
  · exact Prod.Lex.right' _ this (by simp)

end

def shapes (h : Heap) (vs : List Value) : List Shape := (h.shapesFrom [] vs).value

def shape (h : Heap) (v : Value) : Shape := (h.shapeFrom [] v).value

end Heap

end SeqScript
