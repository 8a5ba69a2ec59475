import SeqScript.Proofs.Bindings
import SeqScript.Proofs.Value.Region
import SeqScript.Settings.Basic

/-! What settings leave in a heap. Reading them adds tuples and changes nothing that was there; the
configured values lead to those tuples only, whatever happens to the heap later. -/
namespace SeqScript

def Settings.BoundIn (s : Settings) (region : Ref → Prop) : Prop :=
  ∀ p ∈ s.bindings.getD [], p.2.In region

def Settings.Fixed (s : Settings) (h : Heap) : Prop := ∃ region, h.Tuples region ∧ s.BoundIn region

theorem Settings.Fixed.keeps {s : Settings} {h h' : Heap} (fixed : s.Fixed h) (keeps : h.Keeps h') :
    s.Fixed h' := by
  obtain ⟨region, tuples, bound⟩ := fixed
  exact ⟨region, tuples.keeps keeps, bound⟩

namespace Settings
open Heap

def Adds {α : Type} (h : Heap) (region : Ref → Prop) (m : Reading α)
    (p : α → (Ref → Prop) → Prop) : Prop :=
  h.Tuples region → ∀ a h', m.run h = .ok (a, h') →
    h.Spares h' ∧ ∃ wider, (∀ r, region r → wider r) ∧ h'.Tuples wider ∧ p a wider

namespace Adds

variable {α β : Type} {h : Heap} {region : Ref → Prop}

theorem pure {p : α → (Ref → Prop) → Prop} {a : α} (holds : p a region) :
    Adds h region (pure a) p := by
  intro tuples b h' run
  cases run
  exact ⟨.refl h, region, fun _ member => member, tuples, holds⟩

theorem refuse {p : α → (Ref → Prop) → Prop} (f : SettingsFault) :
    Adds h region (Settings.refuse f) p := by
  intro tuples b h' run
  cases run

theorem bind {p : α → (Ref → Prop) → Prop} {q : β → (Ref → Prop) → Prop} {m : Reading α}
    {f : α → Reading β} (first : Adds h region m p)
    (second : ∀ a h' wider, (∀ r, region r → wider r) → p a wider → Adds h' wider (f a) q) :
    Adds h region (m >>= f) q := by
  intro tuples b h'' run
  obtain ⟨⟨a, h'⟩, ran, rest⟩ := okOfBind run
  obtain ⟨spares, wider, more, tuples', holds⟩ := first tuples a h' ran
  obtain ⟨spares', widest, more', tuples'', holds'⟩ := second a h' wider more holds tuples' b h'' rest
  exact ⟨spares.trans spares', widest, fun r member => more' r (more r member), tuples'', holds'⟩

theorem liftExcept {p : α → (Ref → Prop) → Prop} {result : Except SettingsFault α}
    (holds : ∀ a, p a region) : Adds h region (liftM result : Reading α) p := by
  intro tuples a h' run
  cases result with
  | error f => cases run
  | ok a =>
    cases run
    exact ⟨.refl h, region, fun _ member => member, tuples, holds _⟩

theorem alloc {vs : List Value} (held : ∀ v ∈ vs, v.In region) :
    Adds h region (modifyGet fun h => (Value.object (h.alloc (.tuple vs)).1, (h.alloc (.tuple vs)).2))
      fun v region => v.In region := by
  intro tuples v h' run
  cases run
  refine ⟨Spares.alloc h _, fun r => region r ∨ r = (h.alloc (.tuple vs)).1, fun _ => .inl, ?_, .inr rfl⟩
  have before := tuples.keeps (Spares.alloc h (.tuple vs)).keeps
  refine ⟨fun r member => ?_, fun r member => ?_⟩
  · rcases member with old | rfl
    · exact before.inside r old
    · simp [Heap.alloc]
  · rcases member with old | rfl
    · obtain ⟨items, there, closed⟩ := before.closed r old
      exact ⟨items, there, fun v member => (closed v member).wider fun _ => .inl⟩
    · exact ⟨vs, getAllocNew h _, fun v member => (held v member).wider fun _ => .inl⟩

end Adds

mutual

theorem valueAdds (name : Text) (path : List Nat) (d : Data) (h : Heap) (region : Ref → Prop) :
    Adds h region (value name path d) fun v region => v.In region := by
  match d with
  | .scalar s => exact .pure trivial
  | .sequence items =>
    exact (valuesAdds name path 0 items h region).bind fun vs h' wider _ held => .alloc held
  | .mapping entries => exact .refuse _

theorem valuesAdds (name : Text) (path : List Nat) (index : Nat) (ds : List Data) (h : Heap)
    (region : Ref → Prop) :
    Adds h region (values name path index ds) fun vs region => ∀ v ∈ vs, v.In region := by
  match ds with
  | [] => exact .pure fun v none => by cases none
  | d :: rest =>
    refine (valueAdds name (path ++ [index]) d h region).bind fun v h' wider _ here => ?_
    refine (valuesAdds name path (index + 1) rest h' wider).bind fun vs h'' widest more others => ?_
    exact .pure (List.forall_mem_cons.mpr ⟨here.wider more, others⟩)

end

theorem variableEntriesAdds (tupleBehind : Bool) (entries : List (Text × Data)) (h : Heap)
    (region : Ref → Prop) :
    Adds h region (variableEntries tupleBehind entries) fun b region => ∀ p ∈ b, p.2.In region := by
  induction entries generalizing tupleBehind h region with
  | nil => exact .pure fun p none => by cases none
  | cons entry rest ih =>
    refine (valueAdds entry.1 [] entry.2 h region).bind fun v h' wider _ here => ?_
    dsimp only
    split
    · exact .refuse _
    · refine (ih _ h' wider).bind fun b h'' widest more others => ?_
      exact .pure (List.forall_mem_cons.mpr ⟨here.wider more, others⟩)

theorem readVariablesAdds (d : Data) (h : Heap) (region : Ref → Prop) :
    Adds h region (readVariables d) fun b region => ∀ p ∈ b, p.2.In region := by
  cases d with
  | scalar s => exact .refuse _
  | sequence items => exact .refuse _
  | mapping entries =>
    exact (variableEntriesAdds false entries h region).bind fun b h' wider _ held =>
      .pure fun p member => held p (Bindings.memOfPairs (List.mem_filter.mp member).1)

theorem entryAdds {s : Settings} (key : SettingsKey) (d : Data) (h : Heap) {region : Ref → Prop}
    (bound : s.BoundIn region) : Adds h region (entry s key d) BoundIn := by
  cases key with
  | timeout =>
    simp only [entry]
    split
    · exact .pure bound
    · exact .refuse _
  | diagnostics =>
    exact Adds.bind (p := fun _ _ => True) (.liftExcept fun _ => trivial) fun limits h' wider more _ =>
      .pure fun p member => (bound p member).wider more
  | bindings =>
    exact (readVariablesAdds d h region).bind fun b h' wider _ held => .pure held

theorem entriesAdds {s : Settings} (es : List (Text × Data)) (h : Heap) {region : Ref → Prop}
    (bound : s.BoundIn region) : Adds h region (entries s es) BoundIn := by
  induction es generalizing s h region with
  | nil => exact .pure bound
  | cons e rest ih =>
    simp only [entries]
    split
    · exact .refuse _
    · rename_i key _
      exact (entryAdds key e.2 h bound).bind fun s' h' wider _ bound' => ih h' bound'

theorem ofDataAdds (d : Data) (h : Heap) (region : Ref → Prop) :
    Adds h region (ofData d) BoundIn := by
  have none : empty.BoundIn region := fun p member => by cases member
  unfold ofData
  split
  · exact .pure none
  · exact entriesAdds _ h none
  · exact .refuse _

theorem readFixed {d : Data} {h h' : Heap} {s : Settings} (reads : read d h = .ok (s, h')) :
    h.Spares h' ∧ s.Fixed h' := by
  have nothing : h.Tuples fun _ => False := ⟨fun _ never => never.elim, fun _ never => never.elim⟩
  obtain ⟨spares, region, _, tuples, bound⟩ := ofDataAdds d h _ nothing s h' reads
  exact ⟨spares, region, tuples, bound⟩

end Settings

end SeqScript
