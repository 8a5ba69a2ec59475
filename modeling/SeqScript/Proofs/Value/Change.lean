import Mathlib.Logic.Relation
import SeqScript.Value.Heap

/-! How heaps change. Every change creates something, freezes a domain or gives a list other items;
so objects keep their kind and owner, frozen domains stay frozen, and the lists of a frozen domain
keep their items. -/
namespace SeqScript

theorem okOfBind {ε α β : Type} {m : Except ε α} {f : α → Except ε β} {b : β}
    (done : m >>= f = .ok b) : ∃ a, m = .ok a ∧ f a = .ok b := by
  cases m with
  | error e => cases done
  | ok a => exact ⟨a, rfl, done⟩

namespace Heap
open Relation (ReflTransGen)

inductive Change : Heap → Heap → Prop where
  | made (h : Heap) (o : Object) : Change h (h.alloc o).2
  | opened (h : Heap) : Change h h.newDomain.2
  | froze (h : Heap) (d : Domain) : Change h (h.freeze d)
  | extended {h h' : Heap} {r values location} (allowed : h.extend r values location = .ok h') :
      Change h h'
  | set {h h' : Heap} {r index value location} (allowed : h.set r index value location = .ok h') :
      Change h h'
  | popped {h h' : Heap} {r index location v} (allowed : h.pop r index location = .ok (v, h')) :
      Change h h'

abbrev Evolves : Heap → Heap → Prop := ReflTransGen Change

structure Keeps (h h' : Heap) : Prop where
  size : h.objects.size ≤ h'.objects.size
  domains : h.domains ≤ h'.domains
  frozen : ∀ d, h.isFrozen d = true → h'.isFrozen d = true
  lists : ∀ r owner items, h.get r = .list owner items →
    ∃ items', h'.get r = .list owner items' ∧ (h.isFrozen owner = true → items' = items)
  tuples : ∀ r items, r < h.objects.size → h.get r = .tuple items → h'.get r = .tuple items

theorem Keeps.refl (h : Heap) : h.Keeps h where
  size := Nat.le_refl _
  domains := Nat.le_refl _
  frozen _ same := same
  lists _ _ items same := ⟨items, same, fun _ => rfl⟩
  tuples _ _ _ same := same

theorem Keeps.trans {h h' h'' : Heap} (first : h.Keeps h') (second : h'.Keeps h'') :
    h.Keeps h'' where
  size := Nat.le_trans first.size second.size
  domains := Nat.le_trans first.domains second.domains
  frozen d frozen := second.frozen d (first.frozen d frozen)
  lists r owner items there := by
    obtain ⟨items', there', same'⟩ := first.lists r owner items there
    obtain ⟨items'', there'', same''⟩ := second.lists r owner items' there'
    exact ⟨items'', there'', fun frozen =>
      (same'' (first.frozen owner frozen)).trans (same' frozen)⟩
  tuples r items inside there :=
    second.tuples r items (Nat.lt_of_lt_of_le inside first.size) (first.tuples r items inside there)

theorem listInside {h : Heap} {r : Ref} {owner : Domain} {items : List Value}
    (there : h.get r = .list owner items) : r < h.objects.size := by
  apply Decidable.byContradiction
  intro outside
  simp [get, Array.getElem?_eq_none (Nat.le_of_not_lt outside)] at there

theorem listObject {h : Heap} {v : Value} {r : Ref} (found : h.list? v = some r) :
    v = .object r ∧ h.kind r = .list := by
  cases v with
  | scalar s => cases found
  | object r' =>
    obtain ⟨kind, same⟩ := Option.ite_none_right_eq_some.mp found
    cases same
    exact ⟨rfl, kind⟩

theorem tupleObject {h : Heap} {v : Value} {r : Ref} (found : h.tuple? v = some r) :
    v = .object r ∧ h.kind r = .tuple := by
  cases v with
  | scalar s => cases found
  | object r' =>
    obtain ⟨kind, same⟩ := Option.ite_none_right_eq_some.mp found
    cases same
    exact ⟨rfl, kind⟩

theorem getAlloc {h : Heap} {o : Object} {r : Ref} (inside : r < h.objects.size) :
    (h.alloc o).2.get r = h.get r := by
  simp only [alloc, get, Array.getElem?_push, Nat.ne_of_lt inside, if_false]

theorem getAllocNew (h : Heap) (o : Object) : (h.alloc o).2.get (h.alloc o).1 = o := by
  simp [alloc, get]

theorem keepsAlloc (h : Heap) (o : Object) : h.Keeps (h.alloc o).2 where
  size := by simp [alloc]
  domains := Nat.le_refl _
  frozen _ same := same
  lists r owner items there := ⟨items, (getAlloc (listInside there)).trans there, fun _ => rfl⟩
  tuples r items inside there := (getAlloc inside).trans there

theorem keepsSetItems {h : Heap} {r : Ref} (mutable : h.isFrozenList r = false)
    (items : List Value) : h.Keeps (h.setItems r items) where
  size := by simp
  domains := by unfold setItems; split <;> exact Nat.le_refl _
  frozen d same := by simpa [isFrozen] using same
  lists s owner old there := by
    rw [getSetItems, there]
    split
    · rename_i same
      subst same
      refine ⟨items, rfl, fun frozen => ?_⟩
      simp [isFrozenList, there, frozen] at mutable
    · exact ⟨old, rfl, fun _ => rfl⟩
  tuples s old inside there := by
    rw [getSetItems, there]
    split <;> rfl

theorem mutableOk {h : Heap} {r : Ref} {location : Option Location} {u : Unit}
    (allowed : h.mutable r location = .ok u) : h.isFrozenList r = false := by
  unfold mutable at allowed
  split at allowed
  · cases allowed
  · rename_i free
    exact Bool.eq_false_iff.mpr free

theorem extendAllowed {h h' : Heap} {r : Ref} {values : List Value} {location : Option Location}
    (allowed : h.extend r values location = .ok h') :
    h.isFrozenList r = false ∧ h' = h.setItems r (h.items r ++ values) := by
  obtain ⟨_, free, done⟩ := okOfBind allowed
  exact ⟨mutableOk free, (Except.ok.inj done).symm⟩

theorem setAllowed {h h' : Heap} {r : Ref} {index : Number} {value : Value}
    {location : Option Location} (allowed : h.set r index value location = .ok h') :
    h.isFrozenList r = false ∧ ∃ n, position index (h.length r) = some n ∧
      h' = h.setItems r ((h.items r).set n value) := by
  obtain ⟨_, free, done⟩ := okOfBind allowed
  split at done
  · rename_i n place
    exact ⟨mutableOk free, n, place, (Except.ok.inj done).symm⟩
  · cases done

theorem popAllowed {h h' : Heap} {r : Ref} {index : Option Number} {v : Value}
    {location : Option Location} (allowed : h.pop r index location = .ok (v, h')) :
    h.isFrozenList r = false ∧ ∃ n, position (index.getD (.ofInt (-1))) (h.length r) = some n ∧
      v = (h.items r).getD n .none ∧ h' = h.setItems r ((h.items r).eraseIdx n) := by
  obtain ⟨_, free, done⟩ := okOfBind allowed
  dsimp only at done
  split at done
  · rename_i n place
    cases done
    exact ⟨mutableOk free, n, place, rfl, rfl⟩
  · cases done

theorem Change.keeps {h h' : Heap} (change : Change h h') : h.Keeps h' := by
  cases change with
  | made o => exact keepsAlloc h o
  | opened => exact { Keeps.refl h with domains := Nat.le_succ _ }
  | froze d =>
    exact { Keeps.refl h with
      frozen := fun e same => by simp [freeze, isFrozen] at same ⊢; exact .inr same }
  | extended allowed =>
    obtain ⟨free, rfl⟩ := extendAllowed allowed
    exact keepsSetItems free _
  | set allowed =>
    obtain ⟨free, n, _, rfl⟩ := setAllowed allowed
    exact keepsSetItems free _
  | popped allowed =>
    obtain ⟨free, n, _, _, rfl⟩ := popAllowed allowed
    exact keepsSetItems free _

theorem Evolves.keeps {h h' : Heap} (evolves : h.Evolves h') : h.Keeps h' := by
  induction evolves with
  | refl => exact .refl h
  | tail _ change ih => exact ih.trans change.keeps

end Heap

end SeqScript
