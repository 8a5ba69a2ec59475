import SeqScript.Text.Basic

/-!
Names bound to things, in the order in which the names were first bound. Binding a name again
keeps its place.
-/
namespace SeqScript

abbrev Bindings (α : Type) := List (Text × α)

namespace Bindings

variable {α β : Type}

def get? (name : Text) : Bindings α → Option α
  | [] => none
  | (n, a) :: rest => if n = name then some a else get? name rest

def set (name : Text) (a : α) : Bindings α → Bindings α
  | [] => [(name, a)]
  | (n, b) :: rest => if n = name then (n, a) :: rest else (n, b) :: set name a rest

def contains (name : Text) (b : Bindings α) : Bool := (b.get? name).isSome

def names (b : Bindings α) : List Text := b.map Prod.fst

def ofPairs (pairs : List (Text × α)) : Bindings α := pairs.foldl (fun b p => set p.1 p.2 b) []

/- The one name that neither settings nor results can hold. -/
def unheldName : Text := text "__proto__"

def held (b : Bindings α) : Bindings α := b.filter fun p => p.1 ≠ unheldName

def sorted (b : Bindings α) : Bindings α := b.mergeSort fun p q => p.1.le q.1

theorem getSet (b : Bindings α) (name : Text) (a : α) (other : Text) :
    get? other (set name a b) = if name = other then some a else get? other b := by
  induction b with
  | nil => simp [set, get?]
  | cons p rest ih =>
    obtain ⟨n, x⟩ := p
    simp only [set]
    split
    · subst_vars; simp only [get?]; split <;> rfl
    · simp only [get?, ih]
      split
      · subst_vars; rw [if_neg]; exact fun e => by simp_all
      · rfl

theorem namesSet (b : Bindings α) (name : Text) (a : α) :
    names (set name a b) = if name ∈ names b then names b else names b ++ [name] := by
  induction b with
  | nil => simp [set, names]
  | cons p rest ih =>
    obtain ⟨n, x⟩ := p
    simp only [names] at ih
    simp only [set, names]
    split
    · subst_vars; simp
    · rename_i ne
      simp only [List.map_cons, ih, List.mem_cons]
      have ne' : name ≠ n := fun e => ne e.symm
      simp only [ne', false_or]
      by_cases mem : name ∈ List.map Prod.fst rest <;> simp [mem]

theorem containsIff (b : Bindings α) (name : Text) : b.contains name = true ↔ name ∈ b.names := by
  induction b with
  | nil => simp [contains, get?, names]
  | cons p rest ih =>
    obtain ⟨n, x⟩ := p
    simp only [contains, names] at ih
    simp only [contains, get?, names, List.map_cons, List.mem_cons]
    split
    · subst_vars; simp
    · rename_i ne
      rw [ih]
      exact ⟨.inr, fun h => h.resolve_left fun e => ne e.symm⟩

end Bindings

end SeqScript
