import Mathlib.Data.List.Forall2
import SeqScript.Bindings
import SeqScript.Proofs.Value.Region
import SeqScript.Value.Shape

/-! Two heaps that mirror each other under a pairing of their references. Paired sequences are of one
kind and hold the same scalars and paired sequences again, place by place. So whatever can be told of
a value without naming a reference is the same on both sides: its kind and length, its written form,
its shape. -/
namespace SeqScript
open List (Forall₂)

inductive Value.Mirrors (paired : Ref → Ref → Prop) : Value → Value → Prop where
  | scalar (s : Scalar) : Mirrors paired (.scalar s) (.scalar s)
  | object {r s : Ref} (pair : paired r s) : Mirrors paired (.object r) (.object s)

abbrev Values.Mirror (paired : Ref → Ref → Prop) : List Value → List Value → Prop :=
  Forall₂ (Value.Mirrors paired)

inductive Object.Mirrors (owners : Domain → Domain → Prop) (paired : Ref → Ref → Prop) :
    Object → Object → Prop where
  | list {d e vs ws} (owned : owners d e) (items : Values.Mirror paired vs ws) :
      Mirrors owners paired (.list d vs) (.list e ws)
  | tuple {vs ws} (items : Values.Mirror paired vs ws) :
      Mirrors owners paired (.tuple vs) (.tuple ws)

structure Heap.Mirrors (owners : Domain → Domain → Prop) (paired : Ref → Ref → Prop)
    (h k : Heap) : Prop where
  inside : ∀ {r s}, paired r s → r < h.objects.size ∧ s < k.objects.size
  single : ∀ {r s r' s'}, paired r s → paired r' s' → (r = r' ↔ s = s')
  objects : ∀ {r s}, paired r s → (h.get r).Mirrors owners paired (k.get s)

variable {owners : Domain → Domain → Prop} {paired further : Ref → Ref → Prop} {h k : Heap}

theorem Value.Mirrors.wider (more : ∀ r s, paired r s → further r s) {v w : Value}
    (alike : v.Mirrors paired w) : v.Mirrors further w := by
  cases alike with
  | scalar s => exact .scalar s
  | object pair => exact .object (more _ _ pair)

theorem Values.Mirror.wider (more : ∀ r s, paired r s → further r s) {vs ws : List Value}
    (alike : Values.Mirror paired vs ws) : Values.Mirror further vs ws :=
  alike.imp fun _ _ one => one.wider more

theorem Values.Mirror.scalars {vs : List Value} (plain : ∀ v ∈ vs, ∃ s, v = .scalar s) :
    Values.Mirror paired vs vs := by
  refine List.forall₂_same.mpr fun v member => ?_
  obtain ⟨s, rfl⟩ := plain v member
  exact .scalar s

theorem Values.Mirror.map {α : Type} {f g : Value → α}
    {vs ws : List Value} (same : ∀ v ∈ vs, ∀ w, v.Mirrors paired w → f v = g w)
    (alike : Values.Mirror paired vs ws) : vs.map f = ws.map g := by
  induction alike with
  | nil => rfl
  | cons first _ ih =>
    obtain ⟨here, others⟩ := List.forall_mem_cons.mp same
    rw [List.map_cons, List.map_cons, here _ first, ih others]

theorem Values.Mirror.at {vs ws : List Value} (alike : Values.Mirror paired vs ws) (n : Nat) :
    Option.Rel (Value.Mirrors paired) vs[n]? ws[n]? := by
  induction alike generalizing n with
  | nil => exact .none
  | cons first _ ih =>
    cases n with
    | zero => exact .some first
    | succ n => exact ih n

namespace Object.Mirrors

theorem wider (more : ∀ r s, paired r s → further r s) {o p : Object}
    (alike : o.Mirrors owners paired p) : o.Mirrors owners further p := by
  cases alike with
  | list owned items => exact .list owned (Values.Mirror.wider more items)
  | tuple items => exact .tuple (Values.Mirror.wider more items)

theorem kind {o p : Object} (alike : o.Mirrors owners paired p) : o.kind = p.kind := by
  cases alike <;> rfl

theorem items {o p : Object} (alike : o.Mirrors owners paired p) :
    Values.Mirror paired o.items p.items := by
  cases alike <;> assumption

end Object.Mirrors

namespace Heap.Mirrors

variable (mirrors : h.Mirrors owners paired k)
include mirrors

theorem kind {r s : Ref} (pair : paired r s) : h.kind r = k.kind s := (mirrors.objects pair).kind

theorem items {r s : Ref} (pair : paired r s) : Values.Mirror paired (h.items r) (k.items s) :=
  (mirrors.objects pair).items

theorem length {r s : Ref} (pair : paired r s) : h.length r = k.length s :=
  (mirrors.items pair).length_eq

theorem holds {r s : Ref} (pair : paired r s) : h.holds r = true ∧ k.holds s = true :=
  ⟨decide_eq_true (mirrors.inside pair).1, decide_eq_true (mirrors.inside pair).2⟩

theorem typeName {v w : Value} (alike : v.Mirrors paired w) : h.typeName v = k.typeName w := by
  cases alike with
  | scalar s => rfl
  | object pair => exact congrArg SequenceKind.name (mirrors.kind pair)

theorem truthy {v w : Value} (alike : v.Mirrors paired w) : h.truthy v = k.truthy w := by
  cases alike with
  | scalar s => rfl
  | object pair =>
    have items := mirrors.items pair
    simp only [Heap.truthy]
    generalize h.items _ = vs, k.items _ = ws at items ⊢
    cases items <;> rfl

theorem length? {v w : Value} (alike : v.Mirrors paired w) : h.length? v = k.length? w := by
  cases alike with
  | scalar s => cases s <;> rfl
  | object pair => exact congrArg some (mirrors.length pair)

theorem elements? {v w : Value} (alike : v.Mirrors paired w) :
    Option.Rel (Values.Mirror paired) (h.elements? v) (k.elements? w) := by
  cases alike with
  | object pair => exact .some (mirrors.items pair)
  | scalar s =>
    cases s with
    | string t =>
      refine .some (Values.Mirror.scalars fun v member => ?_)
      obtain ⟨u, _, rfl⟩ := List.mem_map.mp member
      exact ⟨_, rfl⟩
    | none | bool | number => exact .none

theorem list? {v w : Value} (alike : v.Mirrors paired w) :
    Option.Rel paired (h.list? v) (k.list? w) := by
  cases alike with
  | scalar s => exact .none
  | object pair =>
    simp only [Heap.list?, mirrors.kind pair]
    split
    · exact .some pair
    · exact .none

theorem tuple? {v w : Value} (alike : v.Mirrors paired w) :
    Option.Rel paired (h.tuple? v) (k.tuple? w) := by
  cases alike with
  | scalar s => exact .none
  | object pair =>
    simp only [Heap.tuple?, mirrors.kind pair]
    split
    · exact .some pair
    · exact .none

theorem element? {r s : Ref} (pair : paired r s) (index : Number) :
    Option.Rel (Value.Mirrors paired) (h.element? r index) (k.element? s index) := by
  simp only [Heap.element?, mirrors.length pair]
  split
  · rename_i n _
    exact (mirrors.items pair).at n
  · exact .none

theorem frozenList (frozen : ∀ d e, owners d e → h.isFrozen d = k.isFrozen e) {r s : Ref}
    (pair : paired r s) : h.isFrozenList r = k.isFrozenList s := by
  have objects := mirrors.objects pair
  unfold Heap.isFrozenList
  generalize h.get r = o, k.get s = p at objects ⊢
  cases objects with
  | list owned items => exact frozen _ _ owned
  | tuple items => rfl

theorem sameObjects {h' k' : Heap} (left : h'.objects = h.objects) (right : k'.objects = k.objects) :
    h'.Mirrors owners paired k' where
  inside pair := by
    rw [left, right]
    exact mirrors.inside pair
  single := mirrors.single
  objects {r s} pair := by
    have there : h'.get r = h.get r ∧ k'.get s = k.get s := by simp only [Heap.get, left, right, and_self]
    rw [there.1, there.2]
    exact mirrors.objects pair

end Heap.Mirrors

def Also (paired : Ref → Ref → Prop) (a b : Ref) (r s : Ref) : Prop := paired r s ∨ r = a ∧ s = b

theorem Heap.Mirrors.alloc (mirrors : h.Mirrors owners paired k) {o p : Object}
    (alike : o.Mirrors owners paired p) :
    (h.alloc o).2.Mirrors owners (Also paired (h.alloc o).1 (k.alloc p).1) (k.alloc p).2 where
  inside := by
    rintro r s (pair | ⟨rfl, rfl⟩)
    · have inside := mirrors.inside pair
      simp only [Heap.alloc, Array.size_push]
      exact ⟨Nat.lt_succ_of_lt inside.1, Nat.lt_succ_of_lt inside.2⟩
    · simp [Heap.alloc]
  single := by
    rintro r s r' s' (pair | ⟨rfl, rfl⟩) (pair' | ⟨rfl, rfl⟩)
    · exact mirrors.single pair pair'
    · have inside := mirrors.inside pair
      exact iff_of_false (Nat.ne_of_lt inside.1) (Nat.ne_of_lt inside.2)
    · have inside := mirrors.inside pair'
      exact iff_of_false (Nat.ne_of_gt inside.1) (Nat.ne_of_gt inside.2)
    · exact iff_of_true rfl rfl
  objects := by
    rintro r s (pair | ⟨rfl, rfl⟩)
    · have inside := mirrors.inside pair
      rw [getAlloc inside.1, getAlloc inside.2]
      exact (mirrors.objects pair).wider fun _ _ => .inl
    · rw [getAllocNew, getAllocNew]
      exact alike.wider fun _ _ => .inl

theorem Heap.Mirrors.setItems (mirrors : h.Mirrors owners paired k) {r s : Ref} (pair : paired r s)
    {vs ws : List Value} (items : Values.Mirror paired vs ws) :
    (h.setItems r vs).Mirrors owners paired (k.setItems s ws) where
  inside pair' := by
    rw [sizeSetItems, sizeSetItems]
    exact mirrors.inside pair'
  single := mirrors.single
  objects {r' s'} pair' := by
    have objects := mirrors.objects pair'
    rw [getSetItems, getSetItems]
    by_cases same : r = r'
    · rw [if_pos same, if_pos ((mirrors.single pair pair').mp same)]
      generalize h.get r' = o, k.get s' = p at objects ⊢
      cases objects with
      | list owned _ => exact .list owned items
      | tuple old => exact .tuple old
    · rw [if_neg same, if_neg fun other => same ((mirrors.single pair pair').mpr other)]
      exact objects

def NoOwners (_ _ : Domain) : Prop := False

theorem Object.Mirrors.tuples {o p : Object} (alike : o.Mirrors NoOwners paired p) :
    ∃ vs ws, o = .tuple vs ∧ p = .tuple ws ∧ Values.Mirror paired vs ws := by
  cases alike with
  | list owned items => exact owned.elim
  | tuple items => exact ⟨_, _, rfl, rfl, items⟩

theorem Heap.Mirrors.keeps (mirrors : h.Mirrors NoOwners paired k) {h' k' : Heap}
    (left : h.Keeps h') (right : k.Keeps k') : h'.Mirrors NoOwners paired k' where
  inside pair :=
    ⟨Nat.lt_of_lt_of_le (mirrors.inside pair).1 left.size,
      Nat.lt_of_lt_of_le (mirrors.inside pair).2 right.size⟩
  single := mirrors.single
  objects {r s} pair := by
    have inside := mirrors.inside pair
    obtain ⟨vs, ws, here, there, items⟩ := (mirrors.objects pair).tuples
    rw [left.tuples r vs inside.1 here, right.tuples s ws inside.2 there]
    exact .tuple items

theorem Heap.Mirrors.weaken {others : Domain → Domain → Prop} (mirrors : h.Mirrors owners paired k)
    (weaker : ∀ d e, owners d e → others d e) : h.Mirrors others paired k where
  inside := mirrors.inside
  single := mirrors.single
  objects pair := by
    have objects := mirrors.objects pair
    generalize h.get _ = o, k.get _ = p at objects ⊢
    cases objects with
    | list owned items => exact .list (weaker _ _ owned) items
    | tuple items => exact .tuple items

namespace Heap.Mirrors

theorem met (mirrors : h.Mirrors owners paired k) {rs ss : List Ref} (alike : Forall₂ paired rs ss)
    {r s : Ref} (pair : paired r s) : (r ∈ rs ↔ s ∈ ss) ∧ rs.idxOf r = ss.idxOf s := by
  induction alike with
  | nil => simp
  | @cons r' s' rs ss pair' _ ih =>
    have single := mirrors.single pair' pair
    have flipped := mirrors.single pair pair'
    refine ⟨by rw [List.mem_cons, List.mem_cons, flipped, ih.1], ?_⟩
    rw [List.idxOf_cons, List.idxOf_cons, ih.2]
    simp only [beq_iff_eq, single, Bool.cond_eq_ite]

end Heap.Mirrors

namespace Heap.Mirrors

/- The induction is on the sequences that have not been entered on one side. -/
theorem writtenIn (mirrors : h.Mirrors owners paired k) {entered others : List Ref} {v w : Value}
    (alike : Forall₂ paired entered others) (values : v.Mirrors paired w) :
    h.writtenIn entered v = k.writtenIn others w := by
  induction entered, v using writingInduction (h := h) generalizing others w with
  | scalar entered s =>
    cases values
    rw [Heap.writtenIn, Heap.writtenIn]
  | object entered r ih =>
    cases values with
    | @object _ s pair =>
      have met := (mirrors.met alike pair).1
      rw [writtenObject, writtenObject, mirrors.kind pair]
      by_cases again : r ∈ entered
      · rw [if_pos again, if_pos (met.mp again)]
      · have items : (h.items r).map (h.writtenIn (r :: entered)) =
            (k.items s).map (k.writtenIn (s :: others)) :=
          Values.Mirror.map (fun v member _ => ih again v member (.cons pair alike))
            (mirrors.items pair)
        rw [if_neg again, if_neg fun there => again (met.mpr there), items]

theorem output (mirrors : h.Mirrors owners paired k) {v w : Value} (values : v.Mirrors paired w) :
    h.output v = k.output w := by
  have written : h.written v = k.written w :=
    mirrors.writtenIn .nil values
  cases values with
  | object pair => exact written
  | scalar s =>
    cases s with
    | string t => rfl
    | none | bool | number => exact written

def SameNumbered (paired : Ref → Ref → Prop) {before others : List Ref} {α : Type}
    (a : Numbered h before α) (b : Numbered k others α) : Prop :=
  a.value = b.value ∧ Forall₂ paired a.entered b.entered

theorem shapesFrom {n : Nat}
    (one : ∀ {entered others : List Ref} {v w : Value}, unseen h.refs entered < n →
      Forall₂ paired entered others → v.Mirrors paired w →
      SameNumbered paired (h.shapeFrom entered v) (k.shapeFrom others w))
    {vs ws : List Value} (values : Values.Mirror paired vs ws) {entered others : List Ref}
    (few : unseen h.refs entered < n) (alike : Forall₂ paired entered others) :
    SameNumbered paired (h.shapesFrom entered vs) (k.shapesFrom others ws) := by
  induction values generalizing entered others with
  | nil =>
    rw [Heap.shapesFrom, Heap.shapesFrom]
    exact ⟨rfl, alike⟩
  | @cons v w vs ws first rest ih =>
    obtain ⟨head, met⟩ := one few alike first
    have fewer := Nat.lt_of_le_of_lt (h.shapeFrom entered v).unseenLe few
    obtain ⟨tail, last⟩ := ih fewer met
    rw [Heap.shapesFrom, Heap.shapesFrom]
    exact ⟨by rw [head, tail], last⟩

theorem shapeFrom (mirrors : h.Mirrors owners paired k) (n : Nat) {entered others : List Ref}
    {v w : Value} (few : unseen h.refs entered < n) (alike : Forall₂ paired entered others)
    (values : v.Mirrors paired w) :
    SameNumbered paired (h.shapeFrom entered v) (k.shapeFrom others w) := by
  induction n generalizing entered others v w with
  | zero => exact absurd few (Nat.not_lt_zero _)
  | succ n ih =>
    cases values with
    | scalar s =>
      rw [Heap.shapeFrom, Heap.shapeFrom]
      exact ⟨rfl, alike⟩
    | @object r s pair =>
      have holds := mirrors.holds pair
      rw [Heap.shapeFrom, Heap.shapeFrom]
      by_cases again : r ∈ entered
      · rw [dif_pos again, dif_pos ((mirrors.met alike pair).1.mp again)]
        have place := (mirrors.met (List.forall₂_reverse_iff.mpr alike) pair).2
        exact ⟨congrArg Shape.again place, alike⟩
      · have fresh : s ∉ others := fun there => again ((mirrors.met alike pair).1.mpr there)
        rw [dif_neg again, dif_neg fresh, dif_pos holds.1, dif_pos holds.2]
        have less : unseen h.refs (r :: entered) < n := by
          have less := unseenLt (memRefs holds.1) again
          omega
        obtain ⟨items, met⟩ := shapesFrom ih (mirrors.items pair) less (.cons pair alike)
        refine ⟨?_, met⟩
        dsimp only
        rw [items, mirrors.kind pair, alike.length_eq]

theorem shapes (mirrors : h.Mirrors owners paired k) {vs ws : List Value}
    (values : Values.Mirror paired vs ws) : h.shapes vs = k.shapes ws :=
  (shapesFrom (fun few => mirrors.shapeFrom _ few) values (Nat.lt_succ_self _) .nil).1

theorem shape (mirrors : h.Mirrors owners paired k) {v w : Value} (values : v.Mirrors paired w) :
    h.shape v = k.shape w :=
  (mirrors.shapeFrom _ (Nat.lt_succ_self _) .nil values).1

end Heap.Mirrors

def Bindings.Mirror (paired : Ref → Ref → Prop) (b c : Bindings Value) : Prop :=
  Forall₂ (fun p q => p.1 = q.1 ∧ p.2.Mirrors paired q.2) b c

namespace Bindings

variable {b c : Bindings Value}

theorem Mirror.wider (more : ∀ r s, paired r s → further r s) (alike : Mirror paired b c) :
    Mirror further b c := alike.imp fun _ _ one => ⟨one.1, one.2.wider more⟩

theorem Mirror.names (alike : Mirror paired b c) : b.names = c.names := by
  induction alike with
  | nil => rfl
  | cons first _ ih => simp only [Bindings.names, List.map_cons, first.1] at ih ⊢; rw [ih]

theorem Mirror.values (alike : Mirror paired b c) :
    Values.Mirror paired (b.map Prod.snd) (c.map Prod.snd) := by
  induction alike with
  | nil => exact .nil
  | cons first _ ih => exact .cons first.2 ih

theorem Mirror.get? (alike : Mirror paired b c) (name : Text) :
    Option.Rel (Value.Mirrors paired) (b.get? name) (c.get? name) := by
  induction alike with
  | nil => exact .none
  | @cons p q rest others first _ ih =>
    simp only [Bindings.get?, first.1]
    split
    · exact .some first.2
    · exact ih

theorem Mirror.set (alike : Mirror paired b c) (name : Text) {v w : Value}
    (values : v.Mirrors paired w) : Mirror paired (b.set name v) (c.set name w) := by
  induction alike with
  | nil => exact .cons ⟨rfl, values⟩ .nil
  | @cons p q rest others first tail ih =>
    simp only [Bindings.set, first.1]
    split
    · exact .cons ⟨rfl, values⟩ tail
    · exact .cons ⟨rfl, first.2⟩ ih

theorem Mirror.ofPairs (alike : Mirror paired b c) : Mirror paired (ofPairs b) (ofPairs c) := by
  have bound {start other : Bindings Value} (before : Mirror paired start other) :
      Mirror paired (b.foldl (fun a p => a.set p.1 p.2) start)
        (c.foldl (fun a p => a.set p.1 p.2) other) := by
    induction alike generalizing start other with
    | nil => exact before
    | @cons p q _ _ first _ ih =>
      rw [List.foldl_cons, List.foldl_cons, first.1]
      exact ih (before.set q.1 first.2)
  exact bound .nil

theorem Mirror.held (alike : Mirror paired b c) : Mirror paired b.held c.held := by
  induction alike with
  | nil => exact .nil
  | @cons p q rest others first _ ih =>
    simp only [Bindings.held, List.filter_cons, first.1] at ih ⊢
    split
    · exact .cons first ih
    · exact ih

end Bindings

end SeqScript
