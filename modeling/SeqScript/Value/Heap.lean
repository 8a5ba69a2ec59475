import SeqScript.Fault.Cause

/-!
Values and the heap of sequences. A sequence has identity: names and elements refer to it, and a
change to a list is seen through every reference. A list belongs to the domain it was created in;
once a domain is frozen its lists can be read but no longer changed. Tuples never change.

A reference to nothing reads as the empty tuple. No operation creates such a reference.
-/
namespace SeqScript

abbrev Ref := Nat

abbrev Domain := Nat

inductive Value where
  | scalar (s : Scalar)
  | object (r : Ref)
  deriving DecidableEq, Repr, Inhabited

inductive Object where
  | list (owner : Domain) (items : List Value)
  | tuple (items : List Value)
  deriving DecidableEq, Repr, Inhabited

namespace Object

def kind : Object → SequenceKind
  | list _ _ => .list
  | tuple _ => .tuple

def items : Object → List Value
  | list _ items | tuple items => items

end Object

namespace Value

def none : Value := .scalar .none
def bool (b : Bool) : Value := .scalar (.bool b)
def number (x : Number) : Value := .scalar (.number x)
def string (t : Text) : Value := .scalar (.string t)

def same : Value → Value → Bool
  | .scalar s, .scalar t => s.same t
  | .object r, .object s => r == s
  | _, _ => false

end Value

/- The objects in the order of their creation, the number of domains, and those that are
frozen. -/
structure Heap where
  objects : Array Object
  domains : Nat
  frozen : List Domain
  deriving DecidableEq, Repr, Inhabited

namespace Heap

def empty : Heap := ⟨#[], 0, []⟩

def get (h : Heap) (r : Ref) : Object := h.objects[r]?.getD (.tuple [])

def items (h : Heap) (r : Ref) : List Value := (h.get r).items

def kind (h : Heap) (r : Ref) : SequenceKind := (h.get r).kind

def length (h : Heap) (r : Ref) : Nat := (h.items r).length

def holds (h : Heap) (r : Ref) : Bool := r < h.objects.size

theorem getOutside {h : Heap} {r : Ref} (outside : h.holds r ≠ true) : h.get r = .tuple [] := by
  have none : h.objects[r]? = none := Array.getElem?_eq_none (by simpa [holds] using outside)
  simp [get, none]

theorem itemsOutside {h : Heap} {r : Ref} (outside : h.holds r ≠ true) : h.items r = [] := by
  rw [items, getOutside outside]
  rfl

def alloc (h : Heap) (o : Object) : Ref × Heap :=
  (h.objects.size, { h with objects := h.objects.push o })

def newDomain (h : Heap) : Domain × Heap := (h.domains, { h with domains := h.domains + 1 })

def freeze (h : Heap) (d : Domain) : Heap := { h with frozen := d :: h.frozen }

def isFrozen (h : Heap) (d : Domain) : Bool := d ∈ h.frozen

def isFrozenList (h : Heap) (r : Ref) : Bool :=
  match h.get r with
  | .list owner _ => h.isFrozen owner
  | .tuple _ => false

def setItems (h : Heap) (r : Ref) (items : List Value) : Heap :=
  match h.get r with
  | .list owner _ => { h with objects := h.objects.setIfInBounds r (.list owner items) }
  | .tuple _ => h

@[simp] theorem frozenSetItems (h : Heap) (r : Ref) (items : List Value) :
    (h.setItems r items).frozen = h.frozen := by unfold setItems; split <;> rfl

@[simp] theorem sizeSetItems (h : Heap) (r : Ref) (items : List Value) :
    (h.setItems r items).objects.size = h.objects.size := by
  unfold setItems; split
  · simp
  · rfl

theorem getSetItems (h : Heap) (r s : Ref) (items : List Value) :
    (h.setItems r items).get s =
      if r = s then
        match h.get s with
        | .list owner _ => .list owner items
        | .tuple old => .tuple old
      else h.get s := by
  unfold setItems
  split
  · rename_i owner old same
    by_cases eq : r = s
    · subst eq
      have inside : r < h.objects.size := by
        apply Decidable.byContradiction
        intro outside
        simp [get, Array.getElem?_eq_none (Nat.le_of_not_lt outside)] at same
      simp [get, inside] at same ⊢
      simp [same]
    · simp [get, eq]
  · rename_i old same
    by_cases eq : r = s
    · subst eq; simp [same]
    · simp [eq]

def place (i : Int) (length : Nat) : Option Nat :=
  if 0 ≤ i ∧ i < length then some i.toNat
  else if -length ≤ i ∧ i < 0 then some (length + i).toNat
  else none

theorem placeLt {i : Int} {length n : Nat} (h : place i length = some n) : n < length := by
  unfold place at h
  split at h
  · cases h; omega
  · split at h
    · cases h; omega
    · contradiction

def position (index : Number) (length : Nat) : Option Nat :=
  index.toInt?.bind fun i => place i length

theorem positionLt {index : Number} {length n : Nat} (h : position index length = some n) :
    n < length := by
  obtain ⟨i, _, named⟩ := Option.bind_eq_some_iff.mp h
  exact placeLt named

def element? (h : Heap) (r : Ref) (index : Number) : Option Value :=
  match position index (h.length r) with
  | some n => (h.items r)[n]?
  | none => none

def outOfRange (h : Heap) (r : Ref) (index : Number) (location : Option Location) : Fault :=
  ⟨.indexOutOfRange index (h.kind r) (h.length r), location⟩

/- A frozen list refuses every change before anything else is looked at. -/
def mutable (h : Heap) (r : Ref) (location : Option Location) : Except Fault Unit :=
  if h.isFrozenList r then .error ⟨.frozenList, location⟩ else .ok ()

def extend (h : Heap) (r : Ref) (values : List Value) (location : Option Location) :
    Except Fault Heap := do
  h.mutable r location
  return h.setItems r (h.items r ++ values)

def append (h : Heap) (r : Ref) (value : Value) (location : Option Location) :
    Except Fault Heap := h.extend r [value] location

def set (h : Heap) (r : Ref) (index : Number) (value : Value) (location : Option Location) :
    Except Fault Heap := do
  h.mutable r location
  match position index (h.length r) with
  | some n => return h.setItems r ((h.items r).set n value)
  | none => throw (h.outOfRange r index location)

def pop (h : Heap) (r : Ref) (index : Option Number) (location : Option Location) :
    Except Fault (Value × Heap) := do
  h.mutable r location
  let index := index.getD (.ofInt (-1))
  match position index (h.length r) with
  | some n => return ((h.items r).getD n .none, h.setItems r ((h.items r).eraseIdx n))
  | none => throw (h.outOfRange r index location)

def typeName (h : Heap) : Value → Text
  | .scalar s => s.typeName
  | .object r => (h.kind r).name

def truthy (h : Heap) : Value → Bool
  | .scalar s => s.truthy
  | .object r => !(h.items r).isEmpty

def list? (h : Heap) : Value → Option Ref
  | .object r => if h.kind r = .list then some r else Option.none
  | .scalar _ => Option.none

def tuple? (h : Heap) : Value → Option Ref
  | .object r => if h.kind r = .tuple then some r else Option.none
  | .scalar _ => Option.none

def elements? (h : Heap) : Value → Option (List Value)
  | .object r => some (h.items r)
  | .scalar (.string t) => some (t.codePoints.map Value.string)
  | .scalar _ => Option.none

def length? (h : Heap) : Value → Option Nat
  | .object r => some (h.length r)
  | .scalar (.string t) => some t.length
  | .scalar _ => Option.none

end Heap

end SeqScript
