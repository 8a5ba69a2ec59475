import SeqScript.Proofs.Value.Mirror
import SeqScript.Settings.Basic

/-! One reading of settings in two heaps. What data mean does not depend on the heap that they are read
into: the same settings come out, with tuples that mirror each other, or the same refusal. -/
namespace SeqScript

variable {paired : Ref → Ref → Prop}

namespace Settings
open Heap

structure Mirror (paired : Ref → Ref → Prop) (s t : Settings) : Prop where
  timeout : s.timeout = t.timeout
  diagnostics : s.diagnostics = t.diagnostics
  bindings : Option.Rel (Bindings.Mirror paired) s.bindings t.bindings

inductive ReadEnds (paired : Ref → Ref → Prop) {α β : Type} (p : (Ref → Ref → Prop) → α → β → Prop) :
    Except SettingsFault (α × Heap) → Except SettingsFault (β × Heap) → Prop where
  | read {a b h k} {further : Ref → Ref → Prop} (more : ∀ r r', paired r r' → further r r')
      (mirrors : h.Mirrors NoOwners further k) (holds : p further a b) :
      ReadEnds paired p (.ok (a, h)) (.ok (b, k))
  | refused (f : SettingsFault) : ReadEnds paired p (.error f) (.error f)

theorem ReadEnds.wider {further : Ref → Ref → Prop} (more : ∀ r r', paired r r' → further r r')
    {α β : Type} {p : (Ref → Ref → Prop) → α → β → Prop}
    {x : Except SettingsFault (α × Heap)} {y : Except SettingsFault (β × Heap)}
    (ends : ReadEnds further p x y) : ReadEnds paired p x y := by
  cases ends with
  | read more' mirrors holds => exact .read (fun r r' pair => more' r r' (more r r' pair)) mirrors holds
  | refused f => exact .refused f

def Copies (paired : Ref → Ref → Prop) {α β : Type} (m : Reading α) (n : Reading β)
    (p : (Ref → Ref → Prop) → α → β → Prop) : Prop :=
  ∀ h k : Heap, h.Mirrors NoOwners paired k → ReadEnds paired p (m.run h) (n.run k)

namespace Copies

variable {α β γ δ : Type} {p : (Ref → Ref → Prop) → α → β → Prop}
  {q : (Ref → Ref → Prop) → γ → δ → Prop}

theorem pure {a : α} {b : β} (holds : p paired a b) : Copies paired (pure a) (pure b) p :=
  fun _ _ mirrors => .read (fun _ _ pair => pair) mirrors holds

theorem refuse (f : SettingsFault) : Copies paired (Settings.refuse f) (Settings.refuse f) p :=
  fun _ _ _ => .refused f

theorem bind {m : Reading α} {n : Reading β} {f : α → Reading γ} {g : β → Reading δ}
    (first : Copies paired m n p)
    (second : ∀ further a b, (∀ r r', paired r r' → further r r') → p further a b →
      Copies further (f a) (g b) q) : Copies paired (m >>= f) (n >>= g) q := by
  intro h k mirrors
  have ends := first h k mirrors
  rw [StateT.run_bind, StateT.run_bind]
  generalize m.run h = x, n.run k = y at ends
  cases ends with
  | refused f => exact .refused f
  | @read a b h' k' further more mirrors holds =>
    have left : (Except.ok (a, h') >>= fun x => (f x.1).run x.2) = (f a).run h' := rfl
    have right : (Except.ok (b, k') >>= fun x => (g x.1).run x.2) = (g b).run k' := rfl
    rw [left, right]
    exact (second further a b more holds h' k' mirrors).wider more

theorem liftExcept {result : Except SettingsFault α} {p : (Ref → Ref → Prop) → α → α → Prop}
    (holds : ∀ a, p paired a a) :
    Copies paired (liftM result : Reading α) (liftM result : Reading α) p := by
  intro h k mirrors
  cases result with
  | error f => exact .refused f
  | ok a => exact .read (fun _ _ pair => pair) mirrors (holds a)

theorem alloc {vs ws : List Value} (values : Values.Mirror paired vs ws) :
    Copies paired
      (modifyGet fun h => (Value.object (h.alloc (.tuple vs)).1, (h.alloc (.tuple vs)).2))
      (modifyGet fun h => (Value.object (h.alloc (.tuple ws)).1, (h.alloc (.tuple ws)).2))
      Value.Mirrors := fun _ _ mirrors =>
  .read (fun _ _ => Or.inl) (mirrors.alloc (.tuple values)) (.object (.inr ⟨rfl, rfl⟩))

end Copies

mutual

theorem valueCopies (name : Text) (path : List Nat) (d : Data) (paired : Ref → Ref → Prop) :
    Copies paired (value name path d) (value name path d) Value.Mirrors := by
  match d with
  | .scalar s => exact .pure (.scalar s)
  | .sequence items =>
    exact (valuesCopies name path 0 items paired).bind fun _ _ _ _ values => .alloc values
  | .mapping entries => exact .refuse _

theorem valuesCopies (name : Text) (path : List Nat) (index : Nat) (ds : List Data)
    (paired : Ref → Ref → Prop) :
    Copies paired (values name path index ds) (values name path index ds) Values.Mirror := by
  match ds with
  | [] => exact .pure .nil
  | d :: rest =>
    exact (valueCopies name (path ++ [index]) d paired).bind fun further _ _ _ value =>
      (valuesCopies name path (index + 1) rest further).bind fun _ _ _ more values =>
        .pure (.cons (value.wider more) values)

end

theorem variableEntriesCopies (tupleBehind : Bool) (entries : List (Text × Data))
    (paired : Ref → Ref → Prop) :
    Copies paired (variableEntries tupleBehind entries) (variableEntries tupleBehind entries)
      Bindings.Mirror := by
  induction entries generalizing tupleBehind paired with
  | nil => exact .pure .nil
  | cons entry rest ih =>
    refine (valueCopies entry.1 [] entry.2 paired).bind fun further _ _ _ value => ?_
    dsimp only
    split
    · exact .refuse _
    · exact (ih _ further).bind fun _ _ _ more others =>
        .pure (.cons ⟨rfl, value.wider more⟩ others)

theorem readVariablesCopies (d : Data) (paired : Ref → Ref → Prop) :
    Copies paired (readVariables d) (readVariables d) Bindings.Mirror := by
  cases d with
  | scalar s => exact .refuse _
  | sequence items => exact .refuse _
  | mapping entries =>
    exact (variableEntriesCopies false entries paired).bind fun _ _ _ _ alike =>
      .pure alike.ofPairs.held

theorem Mirror.wider {further : Ref → Ref → Prop} (more : ∀ r r', paired r r' → further r r')
    {s t : Settings} (alike : Mirror paired s t) : Mirror further s t where
  timeout := alike.timeout
  diagnostics := alike.diagnostics
  bindings := by
    have bindings := alike.bindings
    generalize s.bindings = b, t.bindings = c at bindings
    cases bindings with
    | some held => exact .some (held.wider more)
    | none => exact .none

theorem entryCopies (key : SettingsKey) (d : Data) {s t : Settings} (alike : Mirror paired s t) :
    Copies paired (entry s key d) (entry t key d) Mirror := by
  cases key with
  | timeout =>
    simp only [entry]
    split
    · exact .pure ⟨rfl, alike.diagnostics, alike.bindings⟩
    · exact .refuse _
  | diagnostics =>
    refine Copies.bind (p := fun _ a b => a = b) (.liftExcept fun _ => rfl) fun _ _ _ more same => ?_
    exact .pure ⟨alike.timeout, congrArg some same, (alike.wider more).bindings⟩
  | bindings =>
    exact (readVariablesCopies d paired).bind fun _ _ _ _ held =>
      .pure ⟨alike.timeout, alike.diagnostics, .some held⟩

theorem entriesCopies (es : List (Text × Data)) {s t : Settings} (alike : Mirror paired s t) :
    Copies paired (entries s es) (entries t es) Mirror := by
  induction es generalizing s t paired with
  | nil => exact .pure alike
  | cons e rest ih =>
    simp only [entries]
    split
    · exact .refuse _
    · rename_i key _
      exact (entryCopies key e.2 alike).bind fun _ _ _ _ alike => ih alike

theorem ofDataCopies (d : Data) : Copies paired (ofData d) (ofData d) Mirror := by
  have nothing : Mirror paired empty empty := ⟨rfl, rfl, .none⟩
  unfold ofData
  split
  · exact .pure nothing
  · exact entriesCopies _ nothing
  · exact .refuse _

theorem readAgain {d : Data} {h h' : Heap} {s : Settings} (reads : read d h = .ok (s, h')) (k : Heap) :
    ∃ t k' paired, read d k = .ok (t, k') ∧ h'.Mirrors NoOwners paired k' ∧ Mirror paired s t := by
  have unpaired : h.Mirrors NoOwners (fun _ _ => False) k := ⟨False.elim, False.elim, False.elim⟩
  have ends := ofDataCopies d h k unpaired
  rw [read] at reads
  rw [reads] at ends
  generalize again : (ofData d).run k = y at ends
  cases ends with
  | read more mirrors alike => exact ⟨_, _, _, again, mirrors, alike⟩

end Settings

end SeqScript
