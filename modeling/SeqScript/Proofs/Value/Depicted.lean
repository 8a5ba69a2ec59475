import SeqScript.Proofs.Tree.Nodes
import SeqScript.Proofs.Value.Alike
import SeqScript.Proofs.Value.Region

/-! Trees that depict values. A literal depicts the scalars that equal it, and a literal sequence the
sequences of its kind whose elements its slots depict. Two values that one tree depicts are equal,
however differently they share their parts. -/
namespace SeqScript

def Expr.constant? : Expr → Option Scalar
  | literal s _ => some s
  | unary .negate (literal (.number x) _) _ => some (.number x.negate)
  | _ => none

theorem Expr.constantBare (e : Expr) : e.bare.constant? = e.constant? := by
  cases e with
  | unary op operand span =>
    cases op with
    | negate =>
      cases operand with
      | literal s span => cases s <;> rfl
      | _ => rfl
    | not => cases operand <;> rfl
  | _ => rfl

namespace Heap
open List (Forall₂)

mutual

inductive Depicts (h : Heap) : Expr → Value → Prop where
  | scalar {e : Expr} {s t : Scalar} (constant : e.constant? = some s) (same : s.same t = true) :
      Depicts h e (.scalar t)
  | sequence {kind : SequenceKind} {elements : List (Option Expr)} {r : Ref} (span : Span)
      (held : h.holds r = true) (like : h.kind r = kind)
      (inside : DepictsAll h elements (h.items r)) :
      Depicts h (.sequence kind elements span) (.object r)

inductive DepictsAll (h : Heap) : List (Option Expr) → List Value → Prop where
  | none : DepictsAll h [] []
  | more {e : Expr} {v : Value} {elements : List (Option Expr)} {vs : List Value}
      (first : Depicts h e v) (others : DepictsAll h elements vs) :
      DepictsAll h (some e :: elements) (v :: vs)

end

theorem Spares.holds {h h' : Heap} (spares : h.Spares h') {r : Ref} (held : h.holds r = true) :
    h'.holds r = true := by
  simp only [Heap.holds, decide_eq_true_eq] at held ⊢
  exact Nat.lt_of_lt_of_le held spares.size

theorem Spares.held {h h' : Heap} (spares : h.Spares h') {r : Ref} (held : h.holds r = true) :
    h'.get r = h.get r := spares.objects r (by simpa [Heap.holds] using held)

mutual

theorem Depicts.later {h h' : Heap} {e : Expr} {v : Value} (depicts : h.Depicts e v)
    (spares : h.Spares h') : h'.Depicts e v := by
  match depicts with
  | .scalar constant same => exact .scalar constant same
  | @Depicts.sequence _ kind elements r span held like inside =>
    have same := spares.held held
    refine .sequence span (spares.holds held) ((congrArg Object.kind same).trans like) ?_
    have items : h'.items r = h.items r := congrArg Object.items same
    rw [items]
    exact inside.later spares

theorem DepictsAll.later {h h' : Heap} {elements : List (Option Expr)} {vs : List Value}
    (depicts : h.DepictsAll elements vs) (spares : h.Spares h') : h'.DepictsAll elements vs := by
  match depicts with
  | .none => exact .none
  | .more first others => exact .more (first.later spares) (others.later spares)

end

mutual

theorem Depicts.bare {h : Heap} {e e' : Expr} {v : Value} (depicts : h.Depicts e v)
    (same : e'.bare = e.bare) : h.Depicts e' v := by
  match depicts with
  | .scalar constant equal =>
    refine .scalar ?_ equal
    rw [← Expr.constantBare, same, Expr.constantBare, constant]
  | .sequence span held like inside =>
    cases e' with
    | sequence kind' elements' span' =>
      simp only [Expr.bare, Expr.sequence.injEq] at same
      obtain ⟨rfl, slots, _⟩ := same
      exact .sequence span' held like (inside.bare slots)
    | _ => simp [Expr.bare] at same

theorem DepictsAll.bare {h : Heap} {elements elements' : List (Option Expr)} {vs : List Value}
    (depicts : h.DepictsAll elements vs)
    (same : Expr.bareSlots elements' = Expr.bareSlots elements) : h.DepictsAll elements' vs := by
  match depicts with
  | .none =>
    cases elements' with
    | nil => exact .none
    | cons slot rest => cases slot <;> cases same
  | .more first others =>
    cases elements' with
    | nil => cases same
    | cons slot rest =>
      cases slot with
      | none => cases same
      | some e' =>
        simp only [Expr.bareSlots, List.cons.injEq, Option.some.injEq] at same
        exact .more (first.bare same.1) (others.bare same.2)

end

theorem depictedPairs {h : Heap} {elements : List (Option Expr)} {vs ws : List Value}
    (left : h.DepictsAll elements vs) (right : h.DepictsAll elements ws) :
    Forall₂ (fun v w => ∃ e, h.Depicts e v ∧ h.Depicts e w) vs ws := by
  induction elements generalizing vs ws with
  | nil =>
    cases left
    cases right
    exact .nil
  | cons slot rest ih =>
    cases left with | more first others =>
    cases right with | more first' others' =>
    exact .cons ⟨_, first, first'⟩ (ih others others')

theorem depictedBisimulation (h : Heap) :
    h.Bisimulation fun v w => ∃ e, h.Depicts e v ∧ h.Depicts e w := by
  rintro v w ⟨e, left, right⟩
  cases left with
  | @scalar _ s t constant same =>
    cases right with
    | scalar constant' same' =>
      cases constant.symm.trans constant'
      rw [Scalar.sameFlip] at same
      exact .scalars (Scalar.sameChain same same')
    | sequence => cases constant
  | sequence span held like inside =>
    cases right with
    | scalar constant' => cases constant'
    | sequence _ held' like' inside' =>
      exact .sequences (like.trans like'.symm) (depictedPairs inside inside')

theorem depictedEqual {h : Heap} {e : Expr} {v w : Value} (left : h.Depicts e v)
    (right : h.Depicts e w) : h.equal v w = true :=
  bisimilarEqual (depictedBisimulation h) [] v w ⟨e, left, right⟩

end Heap

end SeqScript
