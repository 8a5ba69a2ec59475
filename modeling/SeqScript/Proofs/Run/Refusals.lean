import SeqScript.Proofs.Value.Change
import SeqScript.Run.Evaluate

/-! Why the operations behind builtins, subscripts and list changes refuse their arguments. Every
refusal carries the location the operation was called with. -/
namespace SeqScript

def Refuses {α : Type} (result : Except Fault α) (reason : Fault → Prop) : Prop :=
  ∀ f, result = .error f → reason f

namespace Refuses

variable {α β : Type} {reason : Fault → Prop}

theorem ok (a : α) : Refuses (.ok a) reason := fun _ refused => by cases refused

theorem error {f : Fault} (holds : reason f) : Refuses (.error f : Except Fault α) reason :=
  fun _ refused => by cases refused; exact holds

theorem bind {result : Except Fault α} {f : α → Except Fault β} (first : Refuses result reason)
    (second : ∀ a, result = .ok a → Refuses (f a) reason) : Refuses (result >>= f) reason := by
  cases result with
  | error fault => exact error (first fault rfl)
  | ok a => exact second a rfl

theorem weaken {result : Except Fault α} {reason' : Fault → Prop} (refuses : Refuses result reason)
    (weaker : ∀ f, reason f → reason' f) : Refuses result reason' :=
  fun f refused => weaker f (refuses f refused)

end Refuses

def Fault.Mistyped (location : Option Location) (f : Fault) : Prop :=
  f.cause.id = .typeMismatch ∧ f.location = location

namespace Heap

variable {h : Heap} {r : Ref} {location : Option Location}

theorem mutableRefuses : Refuses (h.mutable r location) fun f =>
    h.isFrozenList r = true ∧ f = ⟨.frozenList, location⟩ := by
  unfold mutable
  split
  · rename_i frozen
    exact .error ⟨frozen, rfl⟩
  · exact .ok ()

theorem extendRefuses {values : List Value} : Refuses (h.extend r values location) fun f =>
    h.isFrozenList r = true ∧ f = ⟨.frozenList, location⟩ :=
  mutableRefuses.bind fun _ _ => .ok _

end Heap

namespace Eval

variable {h : Heap} {function : Text} {args : List Value} {location : Option Location}

theorem expectCountRefuses {count : Nat} :
    Refuses (expectCount function args count location) (Fault.Mistyped location) := by
  unfold expectCount
  split
  · exact .ok ()
  · exact .error ⟨rfl, rfl⟩

theorem elementsOfRefuses {v : Value} :
    Refuses (elementsOf h function v location) (Fault.Mistyped location) := by
  unfold elementsOf
  split
  · exact .ok _
  · exact .error ⟨rfl, rfl⟩

theorem listOfRefuses {v : Value} :
    Refuses (listOf h function v location) (Fault.Mistyped location) := by
  unfold listOf
  split
  · exact .ok _
  · exact .error ⟨rfl, rfl⟩

theorem listOfList {v : Value} {r : Ref} (found : listOf h function v location = .ok r) :
    v = .object r ∧ h.kind r = .list := by
  unfold listOf at found
  split at found
  · rename_i s there
    cases found
    exact Heap.listObject there
  · cases found

theorem elementsOfElements {v : Value} {vs : List Value}
    (found : elementsOf h function v location = .ok vs) : h.elements? v = some vs := by
  unfold elementsOf at found
  split at found
  · cases found
    assumption
  · cases found

theorem lengthOfRefuses : Refuses (lengthOf h args location) (Fault.Mistyped location) := by
  refine expectCountRefuses.bind fun _ _ => ?_
  split
  · exact .ok _
  · exact .error ⟨rfl, rfl⟩

theorem convertedElementsRefuses {b : Builtin} :
    Refuses (convertedElements h b args location) (Fault.Mistyped location) := by
  unfold convertedElements
  split
  · exact .ok _
  · exact expectCountRefuses.bind fun _ _ => elementsOfRefuses

def Frozen (h : Heap) (args : List Value) (location : Option Location) (f : Fault) : Prop :=
  ∃ r, first args = .object r ∧ h.isFrozenList r = true ∧ f = ⟨.frozenList, location⟩

theorem appendToRefuses : Refuses (appendTo h args location) fun f =>
    f.Mistyped location ∨ Frozen h args location f :=
  (expectCountRefuses.weaken fun _ => .inl).bind fun _ _ =>
    (listOfRefuses.weaken fun _ => .inl).bind fun r found =>
      Heap.extendRefuses.weaken fun _ refused => .inr ⟨r, (listOfList found).1, refused⟩

theorem extendWithRefuses : Refuses (extendWith h args location) fun f =>
    f.Mistyped location ∨ Frozen h args location f :=
  (expectCountRefuses.weaken fun _ => .inl).bind fun _ _ =>
    (listOfRefuses.weaken fun _ => .inl).bind fun r found =>
      (elementsOfRefuses.weaken fun _ => .inl).bind fun _ _ =>
        Heap.extendRefuses.weaken fun _ refused => .inr ⟨r, (listOfList found).1, refused⟩

theorem elementAtRefuses {object index : Value} : Refuses (elementAt h object index location) fun f =>
    (f.cause.id = .typeMismatch ∨ f.cause.id = .indexOutOfRange) ∧ f.location = location := by
  unfold elementAt
  repeat' split
  all_goals first
    | exact .ok _
    | exact .error ⟨.inl rfl, rfl⟩
    | exact .error ⟨.inr rfl, rfl⟩

end Eval

end SeqScript
