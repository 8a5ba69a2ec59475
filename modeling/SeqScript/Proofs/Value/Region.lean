import SeqScript.Proofs.Value.Change

/-! Regions of a heap: sets of references that nothing in them leads out of. Values in a region of
one domain cannot reach the lists of another one. -/
namespace SeqScript
open Relation (ReflTransGen)

def Value.In (region : Ref → Prop) : Value → Prop
  | .scalar _ => True
  | .object r => region r

theorem Value.In.wider {region wider : Ref → Prop} (more : ∀ r, region r → wider r) {v : Value}
    (inside : v.In region) : v.In wider := by
  cases v with
  | scalar s => trivial
  | object r => exact more r inside

def Object.OwnedBy (d : Domain) : Object → Prop
  | .list owner _ => owner = d
  | .tuple _ => True

namespace Heap

theorem Keeps.kind {h h' : Heap} (keeps : h.Keeps h') {r : Ref} (inside : r < h.objects.size) :
    h'.kind r = h.kind r := by
  unfold Heap.kind
  cases here : h.get r with
  | tuple items => rw [keeps.tuples r items inside here]
  | list owner items =>
    obtain ⟨items', there, _⟩ := keeps.lists r owner items here
    rw [there]
    rfl

theorem Keeps.owned {h h' : Heap} (keeps : h.Keeps h') {r : Ref} (inside : r < h.objects.size)
    {d : Domain} (owned : (h.get r).OwnedBy d) : (h'.get r).OwnedBy d := by
  cases here : h.get r with
  | tuple items =>
    rw [keeps.tuples r items inside here]
    trivial
  | list owner items =>
    obtain ⟨items', there, _⟩ := keeps.lists r owner items here
    rw [here] at owned
    rwa [there]

def Contains (h : Heap) (r s : Ref) : Prop := Value.object s ∈ h.items r

def Reaches (h : Heap) (v : Value) (s : Ref) : Prop :=
  ∃ r, v = .object r ∧ ReflTransGen h.Contains r s

theorem Reaches.inside {h : Heap} {r s : Ref} {v : Value} (member : v ∈ h.items r)
    (reaches : h.Reaches v s) : h.Reaches (.object r) s := by
  obtain ⟨t, rfl, path⟩ := reaches
  exact ⟨r, rfl, .head member path⟩

structure Sealed (h : Heap) (region : Ref → Prop) : Prop where
  inside : ∀ r, region r → r < h.objects.size
  closed : ∀ r, region r → ∀ v ∈ h.items r, v.In region

namespace Sealed

variable {h h' : Heap} {region : Ref → Prop}

theorem same (enclosed : h.Sealed region) (size : h.objects.size ≤ h'.objects.size)
    (objects : ∀ r, r < h.objects.size → h'.get r = h.get r) : h'.Sealed region where
  inside r member := Nat.lt_of_lt_of_le (enclosed.inside r member) size
  closed r member := by
    rw [items, objects r (enclosed.inside r member)]
    exact enclosed.closed r member

theorem alloc (enclosed : h.Sealed region) {o : Object} (held : ∀ v ∈ o.items, v.In region) :
    (h.alloc o).2.Sealed fun r => region r ∨ r = (h.alloc o).1 := by
  have before : (h.alloc o).2.Sealed region :=
    enclosed.same (keepsAlloc h o).size fun _ inside => getAlloc inside
  refine ⟨fun r member => ?_, fun r member v there => ?_⟩
  · rcases member with old | rfl
    · exact before.inside r old
    · simp [Heap.alloc]
  · rcases member with old | rfl
    · exact (before.closed r old v there).wider fun _ => .inl
    · rw [items, getAllocNew] at there
      exact (held v there).wider fun _ => .inl

theorem setItems (enclosed : h.Sealed region) (r : Ref) {values : List Value}
    (held : ∀ v ∈ values, v.In region) : (h.setItems r values).Sealed region := by
  refine ⟨fun s member => ?_, fun s member v there => ?_⟩
  · rw [sizeSetItems]
    exact enclosed.inside s member
  · have closed := enclosed.closed s member
    rw [items, getSetItems] at there
    split at there
    · split at there
      · exact held v there
      · rename_i same
        rw [items, same] at closed
        exact closed v there
    · exact closed v there

theorem elements (enclosed : h.Sealed region) {v : Value} (inside : v.In region)
    {vs : List Value} (found : h.elements? v = some vs) : ∀ w ∈ vs, w.In region := by
  cases v with
  | object r =>
    cases found
    exact enclosed.closed r inside
  | scalar s =>
    cases s with
    | string t =>
      cases found
      intro w member
      obtain ⟨u, _, rfl⟩ := List.mem_map.mp member
      trivial
    | _ => cases found

end Sealed

structure Region (h : Heap) (d : Domain) (region : Ref → Prop) : Prop where
  inside : ∀ r, region r → r < h.objects.size
  owned : ∀ r, region r → (h.get r).OwnedBy d
  closed : ∀ r, region r → ∀ v ∈ h.items r, v.In region

structure Tuples (h : Heap) (region : Ref → Prop) : Prop where
  inside : ∀ r, region r → r < h.objects.size
  closed : ∀ r, region r → ∃ items, h.get r = .tuple items ∧ ∀ v ∈ items, v.In region

theorem Region.enclosed {h : Heap} {d : Domain} {region : Ref → Prop} (regional : h.Region d region) :
    h.Sealed region := ⟨regional.inside, regional.closed⟩

theorem Tuples.region {h : Heap} {region : Ref → Prop} (tuples : h.Tuples region) (d : Domain) :
    h.Region d region where
  inside := tuples.inside
  owned r member := by
    obtain ⟨items, there, _⟩ := tuples.closed r member
    rw [there]
    trivial
  closed r member := by
    obtain ⟨items, there, closed⟩ := tuples.closed r member
    rw [Heap.items, there]
    exact closed

theorem Tuples.keeps {h h' : Heap} {region : Ref → Prop} (tuples : h.Tuples region)
    (keeps : h.Keeps h') : h'.Tuples region where
  inside r member := Nat.lt_of_lt_of_le (tuples.inside r member) keeps.size
  closed r member := by
    obtain ⟨items, there, closed⟩ := tuples.closed r member
    exact ⟨items, keeps.tuples r items (tuples.inside r member) there, closed⟩

def Issued (h : Heap) : Prop := ∀ d, h.isFrozen d = true → d < h.domains

theorem Issued.newFree {h : Heap} (issued : h.Issued) :
    h.newDomain.2.isFrozen h.newDomain.1 = false :=
  Bool.eq_false_iff.mpr fun frozen => Nat.lt_irrefl _ (issued _ frozen)

structure Spares (h h' : Heap) : Prop where
  size : h.objects.size ≤ h'.objects.size
  domains : h.domains ≤ h'.domains
  objects : ∀ r, r < h.objects.size → h'.get r = h.get r
  frozen : ∀ d, h.isFrozen d = true → h'.isFrozen d = true
  fresh : ∀ d, h'.isFrozen d = true → h.isFrozen d = true ∨ h.domains ≤ d ∧ d < h'.domains

namespace Spares

theorem refl (h : Heap) : h.Spares h where
  size := Nat.le_refl _
  domains := Nat.le_refl _
  objects _ _ := rfl
  frozen _ same := same
  fresh _ same := .inl same

theorem trans {h h' h'' : Heap} (first : h.Spares h') (second : h'.Spares h'') : h.Spares h'' where
  size := Nat.le_trans first.size second.size
  domains := Nat.le_trans first.domains second.domains
  objects r inside :=
    (second.objects r (Nat.lt_of_lt_of_le inside first.size)).trans (first.objects r inside)
  frozen d same := second.frozen d (first.frozen d same)
  fresh d there := by
    rcases second.fresh d there with there | ⟨new, below⟩
    · rcases first.fresh d there with there | ⟨new, below⟩
      · exact .inl there
      · exact .inr ⟨new, Nat.lt_of_lt_of_le below second.domains⟩
    · exact .inr ⟨Nat.le_trans first.domains new, below⟩

theorem alloc (h : Heap) (o : Object) : h.Spares (h.alloc o).2 :=
  { refl h with
    size := by simp [Heap.alloc]
    objects := fun _ inside => getAlloc inside }

theorem newDomain (h : Heap) : h.Spares h.newDomain.2 :=
  { refl h with
    domains := Nat.le_succ _
    fresh := fun _ same => .inl same }

theorem keeps {h h' : Heap} (spares : h.Spares h') : h.Keeps h' where
  size := spares.size
  domains := spares.domains
  frozen := spares.frozen
  lists r _ items there :=
    ⟨items, (spares.objects r (listInside there)).trans there, fun _ => rfl⟩
  tuples r _ inside there := (spares.objects r inside).trans there

theorem issued {h h' : Heap} (spares : h.Spares h') (issued : h.Issued) : h'.Issued := by
  intro d frozen
  rcases spares.fresh d frozen with before | ⟨_, below⟩
  · exact Nat.lt_of_lt_of_le (issued d before) spares.domains
  · exact below

theorem sameFrozen {h h' : Heap} (spares : h.Spares h') {d : Domain} (there : d < h.domains) :
    h'.isFrozen d = h.isFrozen d := by
  rw [Bool.eq_iff_iff]
  refine ⟨fun frozen => ?_, spares.frozen d⟩
  rcases spares.fresh d frozen with before | ⟨new, _⟩
  · exact before
  · exact absurd there (Nat.not_lt.mpr new)

end Spares

end Heap

end SeqScript
