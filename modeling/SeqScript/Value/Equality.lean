import SeqScript.Value.Written

/-!
Structural equality. Lists equal lists and tuples equal tuples, element by element. Two sequences
that are met again while they are being compared count as equal, so sequences inside themselves
are compared by their shape.
-/
namespace SeqScript.Heap

def pairs (h : Heap) : List (Ref × Ref) := h.refs.flatMap fun r => h.refs.map fun s => (r, s)

theorem memPairs {h : Heap} {r s : Ref} (known : h.holds r = true ∧ h.holds s = true) :
    (r, s) ∈ h.pairs :=
  List.mem_flatMap.mpr ⟨r, memRefs known.1, List.mem_map.mpr ⟨s, memRefs known.2, rfl⟩⟩

mutual

/- Compares two values while some pairs of sequences are being compared. -/
def equalIn (h : Heap) (comparing : List (Ref × Ref)) (a b : Value) : Bool :=
  match a, b with
  | .scalar s, .scalar t => s.same t
  | .object r, .object s =>
    if r = s then true
    else if h.kind r ≠ h.kind s ∨ h.length r ≠ h.length s then false
    else if again : (r, s) ∈ comparing then true
    else if known : h.holds r = true ∧ h.holds s = true then
      have := unseenLt (memPairs known) again
      equalAll h ((r, s) :: comparing) (h.items r) (h.items s)
    else true
  | _, _ => false
termination_by (unseen h.pairs comparing, 0)

def equalAll (h : Heap) (comparing : List (Ref × Ref)) (as bs : List Value) : Bool :=
  match as, bs with
  | a :: as, b :: bs =>
    if equalIn h comparing a b then equalAll h comparing as bs else false
  | _, _ => true
termination_by (unseen h.pairs comparing, as.length + 1)

end

def equal (h : Heap) (a b : Value) : Bool := h.equalIn [] a b

end SeqScript.Heap
