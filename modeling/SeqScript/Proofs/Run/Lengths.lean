import SeqScript.Proofs.Run.ListCalls

/-! Lengths through conversions. The builtins that take elements from a value agree on what they are,
and a list, a tuple or an extended list has as many members as there are elements. The length of a
string is not their number: it counts units, and the elements are code points, so that every pair of
surrogates is two units and one element. -/
namespace SeqScript
open Stepper (runFrom)

namespace Text

def pairs (t : Text) : Nat :=
  (t.zip t.tail).countP fun p => p.1.isHighSurrogate && p.2.isLowSurrogate

theorem pairsCons (u v : CodeUnit) (t : Text) :
    pairs (u :: v :: t) =
      (if u.isHighSurrogate && v.isLowSurrogate then 1 else 0) + pairs (v :: t) := by
  simp only [pairs, List.tail_cons, List.zip_cons_cons, List.countP_cons]
  omega

theorem pairsBehindLow {v : CodeUnit} (low : v.isLowSurrogate = true) (t : Text) :
    pairs (v :: t) = pairs t := by
  have notHigh : v.isHighSurrogate = false := by
    simp only [CodeUnit.isLowSurrogate, CodeUnit.isHighSurrogate, Bool.and_eq_true,
      Bool.and_eq_false_iff, decide_eq_true_eq, decide_eq_false_iff_not] at low ⊢
    exact .inr (UInt16.not_lt.mpr low.1)
  cases t with
  | nil => rfl
  | cons w t => simp [pairsCons, notHigh]

theorem codePointsPairs (t : Text) : t.codePoints.length + t.pairs = t.length := by
  fun_induction codePoints t with
  | case1 => rfl
  | case2 u => rfl
  | case3 u v rest paired ih =>
    have low := (Bool.and_eq_true_iff.mp paired).2
    rw [pairsCons, if_pos paired, pairsBehindLow low]
    simp only [List.length_cons]
    omega
  | case4 u v rest apart ih =>
    rw [pairsCons, if_neg apart]
    simp only [List.length_cons] at ih ⊢
    omega

end Text

def Value.pairs : Value → Nat
  | .scalar (.string t) => t.pairs
  | _ => 0

theorem Heap.lengthOfElements {h : Heap} {v : Value} {vs : List Value}
    (elements : h.elements? v = some vs) : h.length? v = some (vs.length + v.pairs) := by
  cases v with
  | object r => cases elements; rfl
  | scalar c =>
    cases c with
    | string t =>
      cases elements
      simp [Heap.length?, Value.pairs, Text.codePointsPairs]
    | none | bool | number => cases elements

namespace Eval

variable {σ : Type} {ctx : Context σ} {s : State σ} {v : Value} {location : Option Location}

theorem runLen {n : Nat} (length : s.store.heap.length? v = some n) :
    runFrom s (applyBuiltin ctx .len [v] location) = (.ok (.number (.ofNat n)), s) := by
  have answer : lengthOf s.store.heap [v] location = .ok (.number (.ofNat n)) := by
    simp only [lengthOf, first, List.headD_cons, length]
    rfl
  rw [applyBuiltin, ListCall.runHeap, answer]
  rfl

theorem runAlloc (o : Object) : ∃ w t, runFrom s (alloc o) = (.ok w, t) ∧
    t.store.heap.length? w = some o.items.length := by
  refine ⟨.object (s.store.heap.alloc o).1, s.withHeap (s.store.heap.alloc o).2, rfl, ?_⟩
  have made := Heap.getAllocNew s.store.heap o
  simp only [State.withHeap, Heap.length?, Heap.length, Heap.items, made]

theorem runConverted {b : Builtin} (converts : b = .list ∨ b = .tuple) {vs : List Value}
    (elements : s.store.heap.elements? v = some vs) :
    ∃ w t, runFrom s (applyBuiltin ctx b [v] location) = (.ok w, t) ∧
      t.store.heap.length? w = some vs.length := by
  have converted : convertedElements s.store.heap b [v] location = .ok vs := by
    simp only [convertedElements, elementsOf, first, List.headD_cons, elements]
    rfl
  have taken : runFrom s (ofFault (.ok vs)) = (.ok vs, s) := rfl
  have only : first [v] = v := rfl
  rcases converts with rfl | rfl
  · rw [applyBuiltin, ListCall.runHeap, converted, runBind taken]
    exact runAlloc (.list ctx.domain vs)
  · rw [applyBuiltin, ListCall.runHeap, converted, runBind taken, ListCall.runHeap, only]
    cases found : s.store.heap.tuple? v with
    | none => exact runAlloc (.tuple vs)
    | some r =>
      obtain ⟨rfl, kind⟩ := Heap.tupleObject found
      cases elements
      exact ⟨.object r, s, rfl, rfl⟩

/- What is extended may be the list itself: its elements are taken before any is added. -/
theorem runExtended {r : Ref} (list : s.store.heap.kind r = .list)
    (free : s.store.heap.isFrozenList r = false) {vs : List Value}
    (elements : s.store.heap.elements? v = some vs) :
    ∃ t, runFrom s (applyBuiltin ctx .extend [.object r, v] location) = (.ok .none, t) ∧
      t.store.heap.length? (.object r) = some (s.store.heap.length r + vs.length) := by
  cases object : s.store.heap.get r with
  | tuple items => simp [Heap.kind, object, Object.kind] at list
  | list owner items =>
    have unfrozen : s.store.heap.isFrozen owner = false := by
      simpa [Heap.isFrozenList, object] using free
    have target : s.store.heap.list? (.object r) = some r := if_pos list
    have extended : extendWith s.store.heap [.object r, v] location =
        .ok (s.store.heap.setItems r (items ++ vs)) := by
      simp only [extendWith, listOf, elementsOf, first, second, List.headD_cons,
        List.getD_cons_succ, List.getD_cons_zero, target, elements]
      exact Heap.extendFree object unfrozen vs
    refine ⟨s.withHeap (s.store.heap.setItems r (items ++ vs)), ?_, ?_⟩
    · rw [applyBuiltin, ListCall.runHeap, extended]
      rfl
    · simp [State.withHeap, Heap.length?, Heap.length, Heap.items, Heap.getSetItems, object,
        Object.items]

/- Whatever a list or a tuple can be made of has elements, and that many more are in a list that
is extended with it, be it that list itself. The length is their number and one more for every
pair of surrogates, so that it is another one for the strings that have such a pair, and for no
other value. -/
theorem lengthsConverted (ctx : Context σ) (s : State σ) (location : Option Location) {v : Value}
    {vs : List Value} (elements : s.store.heap.elements? v = some vs) :
    runFrom s (applyBuiltin ctx .len [v] location) =
      (.ok (.number (.ofNat (vs.length + v.pairs))), s) ∧
    (∀ b, b = .list ∨ b = .tuple → ∃ w t,
      runFrom s (applyBuiltin ctx b [v] location) = (.ok w, t) ∧
      runFrom t (applyBuiltin ctx .len [w] location) = (.ok (.number (.ofNat vs.length)), t)) ∧
    ∀ r, s.store.heap.kind r = .list → s.store.heap.isFrozenList r = false → ∃ k t,
      runFrom s (applyBuiltin ctx .len [.object r] location) = (.ok (.number (.ofNat k)), s) ∧
      runFrom s (applyBuiltin ctx .extend [.object r, v] location) = (.ok .none, t) ∧
      runFrom t (applyBuiltin ctx .len [.object r] location) =
        (.ok (.number (.ofNat (k + vs.length))), t) := by
  refine ⟨runLen (Heap.lengthOfElements elements), fun b converts => ?_, fun r list free => ?_⟩
  · obtain ⟨w, t, made, length⟩ := runConverted converts elements
    exact ⟨w, t, made, runLen length⟩
  · obtain ⟨t, extended, length⟩ := runExtended list free elements
    exact ⟨s.store.heap.length r, t, runLen rfl, extended, runLen length⟩

def looped : State Unit := ⟨⟨⟨#[.list 0 [.number .one, .object 0]], 1, []⟩, [], false, ()⟩, []⟩

def mixed : Text := text "a😀" ++ [0xD83D]

theorem mixedConverted :
    looped.store.heap.elements? (.string mixed) =
      some [.string (text "a"), .string (text "😀"), .string [0xD83D]] ∧
    runFrom looped (applyBuiltin (.plain 0) .len [.string mixed] none) =
      (.ok (.number (.ofNat 4)), looped) ∧
    looped.store.heap.kind 0 = .list ∧ looped.store.heap.isFrozenList 0 = false ∧
    ∃ k t, runFrom looped (applyBuiltin (.plain 0) .len [.object 0] none) =
        (.ok (.number (.ofNat k)), looped) ∧
      runFrom looped (applyBuiltin (.plain 0) .extend [.object 0, .string mixed] none) =
        (.ok .none, t) ∧
      runFrom t (applyBuiltin (.plain 0) .len [.object 0] none) =
        (.ok (.number (.ofNat (k + 3))), t) := by
  have elements : looped.store.heap.elements? (.string mixed) =
    some [.string (text "a"), .string (text "😀"), .string [0xD83D]] := by decide
  obtain ⟨length, -, extended⟩ := lengthsConverted (.plain 0) looped none elements
  exact ⟨elements, length, rfl, rfl, extended 0 rfl rfl⟩

theorem pairShortens : ∃ w t,
    runFrom looped (applyBuiltin (.plain 0) .list [.string (text "😀")] none) = (.ok w, t) ∧
    runFrom t (applyBuiltin (.plain 0) .len [w] none) = (.ok (.number (.ofNat 1)), t) ∧
    runFrom looped (applyBuiltin (.plain 0) .len [.string (text "😀")] none) =
      (.ok (.number (.ofNat 2)), looped) ∧
    Number.ofNat 1 ≠ Number.ofNat 2 :=
  ⟨.object 1, _, rfl, rfl, rfl, by decide +kernel⟩

end Eval

end SeqScript
