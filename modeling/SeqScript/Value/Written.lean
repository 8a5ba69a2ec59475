import SeqScript.Value.Heap

/-!
The written form of values. A sequence inside itself is written as an ellipsis between its
brackets; a sequence that is only shared is written in full each time.
-/
namespace SeqScript

def unseen {α : Type} [DecidableEq α] (all seen : List α) : Nat :=
  all.countP fun a => decide (a ∉ seen)

theorem unseenLe {α : Type} [DecidableEq α] (all seen : List α) (a : α) :
    unseen all (a :: seen) ≤ unseen all seen := by
  unfold unseen
  apply List.countP_mono_left
  intro x _ h
  simp only [decide_eq_true_eq, List.mem_cons, not_or] at h ⊢
  exact h.2

theorem unseenLt {α : Type} [DecidableEq α] {all seen : List α} {a : α} (member : a ∈ all)
    (fresh : a ∉ seen) : unseen all (a :: seen) < unseen all seen := by
  induction all with
  | nil => simp at member
  | cons b rest ih =>
    have tail := unseenLe rest seen a
    simp only [unseen, List.countP_cons, List.mem_cons, not_or] at ih tail ⊢
    by_cases eq : a = b
    · subst eq
      simp only [not_true_eq_false, false_and, decide_false, fresh, not_false_eq_true, decide_true]
      simp only [Bool.false_eq_true, if_false, if_true]
      omega
    · have inside : a ∈ rest := (List.mem_cons.mp member).resolve_left eq
      have less := ih inside
      have other : b ≠ a := fun e => eq e.symm
      simp only [other, not_false_eq_true, true_and]
      split <;> omega

namespace SequenceKind

def enclose (kind : SequenceKind) (items : List Text) : Text :=
  let inner := match kind, items with
    | .tuple, [only] => only ++ text ","
    | _, items => Text.join (text ", ") items
  kind.opener ++ inner ++ kind.closer

def inside (kind : SequenceKind) : Text := kind.opener ++ text "..." ++ kind.closer

end SequenceKind

namespace Heap

def refs (h : Heap) : List Ref := List.range h.objects.size

theorem memRefs {h : Heap} {r : Ref} (known : h.holds r = true) : r ∈ h.refs :=
  List.mem_range.mpr (by simpa [holds] using known)

mutual

def writtenIn (h : Heap) (entered : List Ref) (v : Value) : Text :=
  match v with
  | .scalar s => s.written
  | .object r =>
    if again : r ∈ entered then (h.kind r).inside
    else if known : h.holds r then
      have := unseenLt (memRefs known) again
      (h.kind r).enclose (writtenAll h (r :: entered) (h.items r))
    else SequenceKind.tuple.enclose []
termination_by (unseen h.refs entered, 0)

def writtenAll (h : Heap) (entered : List Ref) (vs : List Value) : List Text :=
  match vs with
  | [] => []
  | v :: rest => writtenIn h entered v :: writtenAll h entered rest
termination_by (unseen h.refs entered, vs.length + 1)

end

theorem writtenAllMap (h : Heap) (entered : List Ref) (vs : List Value) :
    h.writtenAll entered vs = vs.map (h.writtenIn entered) := by
  induction vs with
  | nil => rw [writtenAll]; rfl
  | cons v rest ih => rw [writtenAll, ih]; rfl

theorem writtenObject (h : Heap) (entered : List Ref) (r : Ref) :
    h.writtenIn entered (.object r) =
      if r ∈ entered then (h.kind r).inside
      else (h.kind r).enclose ((h.items r).map (h.writtenIn (r :: entered))) := by
  rw [writtenIn, writtenAllMap]
  split
  · rfl
  split
  · rfl
  · rename_i outside
    rw [kind, items, getOutside outside]
    rfl

/- The items of a sequence are written behind one more sequence that was entered, and there are
finitely many; what is handed from the items to their sequence holds of all values. -/
theorem writingInduction {h : Heap} {P : List Ref → Value → Prop}
    (scalar : ∀ entered s, P entered (.scalar s))
    (object : ∀ entered r, (r ∉ entered → ∀ v ∈ h.items r, P (r :: entered) v) →
      P entered (.object r)) (entered : List Ref) (v : Value) : P entered v := by
  generalize size : unseen h.refs entered = n
  induction n using Nat.strongRecOn generalizing entered v with
  | ind n ih =>
    cases v with
    | scalar s => exact scalar entered s
    | object r =>
      refine object entered r fun fresh v member => ?_
      by_cases known : h.holds r = true
      · exact ih _ (size ▸ unseenLt (memRefs known) fresh) _ v rfl
      · rw [itemsOutside known] at member
        cases member

def written (h : Heap) (v : Value) : Text := h.writtenIn [] v

def output (h : Heap) : Value → Text
  | .scalar (.string t) => t
  | v => h.written v

end Heap

end SeqScript
