import SeqScript.Proofs.Run.Begins
import SeqScript.Proofs.Value.Mirror
import SeqScript.Run.Source

/-! Two runs of one script side by side, in heaps that mirror each other as far as the runs can reach.
Each run makes its lists in a domain of its own. Step by step the runs stay twins: they stop for the
same reason or have values that mirror each other, and what they have told looks the same. -/
namespace SeqScript
open List (Forall₂)
open Stepper (runFrom)

inductive Told where
  | value (shape : Shape) (line : Text)
  | console (line : Text)

def Entry.told? (e : Entry) : Option Told :=
  match e.event with
  | .logged v => some (.value (e.heap.shape v) (e.heap.output v))
  | .console line => some (.console line)
  | _ => none

def Context.moved {σ : Type} (ctx : Context σ) (d : Domain) : Context σ := { ctx with domain := d }

structure Context.Alone (ctx : Context Unit) : Prop where
  noHost : ∀ name f, ctx.functions.get? name ≠ some (.host f)
  silent : ∀ kind, kind ≠ .logged → ctx.listener kind = none
  logged : ctx.listener .logged = none ∨ ctx.listener .logged = some Source.keepLogged

def Owners (d e : Domain) (a b : Domain) : Prop := a = d ∧ b = e

structure Heap.Twins (d e : Domain) (paired : Ref → Ref → Prop) (h k : Heap) : Prop where
  mirrors : h.Mirrors (Owners d e) paired k
  frozen : h.isFrozen d = k.isFrozen e

structure Store.Twins (d e : Domain) (paired : Ref → Ref → Prop) (s t : Store Unit) : Prop where
  heaps : s.heap.Twins d e paired t.heap
  bindings : Bindings.Mirror paired s.bindings t.bindings
  aborted : s.aborted = t.aborted

structure State.Twins (d e : Domain) (paired : Ref → Ref → Prop) (s t : State Unit) : Prop where
  stores : s.store.Twins d e paired t.store
  told : s.trace.filterMap Entry.told? = t.trace.filterMap Entry.told?

inductive TwinEnds (d e : Domain) (paired : Ref → Ref → Prop) {α β : Type}
    (p : (Ref → Ref → Prop) → α → β → Prop) :
    Except Stop α × State Unit → Except Stop β × State Unit → Prop where
  | valued {a b s t} {further : Ref → Ref → Prop} (more : ∀ r r', paired r r' → further r r')
      (twins : State.Twins d e further s t) (holds : p further a b) :
      TwinEnds d e paired p (.ok a, s) (.ok b, t)
  | stopped {stop s t} {further : Ref → Ref → Prop} (more : ∀ r r', paired r r' → further r r')
      (twins : State.Twins d e further s t) :
      TwinEnds d e paired p (.error stop, s) (.error stop, t)

theorem TwinEnds.wider {d e : Domain} {paired further : Ref → Ref → Prop}
    (more : ∀ r r', paired r r' → further r r') {α β : Type} {p : (Ref → Ref → Prop) → α → β → Prop}
    {x : Except Stop α × State Unit} {y : Except Stop β × State Unit}
    (ends : TwinEnds d e further p x y) : TwinEnds d e paired p x y := by
  cases ends with
  | valued more' twins holds =>
    exact .valued (fun r r' pair => more' r r' (more r r' pair)) twins holds
  | stopped more' twins => exact .stopped (fun r r' pair => more' r r' (more r r' pair)) twins

def Tandem (d e : Domain) (paired : Ref → Ref → Prop) {α β : Type} (m : Eval Unit α)
    (n : Eval Unit β) (p : (Ref → Ref → Prop) → α → β → Prop) : Prop :=
  ∀ s t, State.Twins d e paired s t → TwinEnds d e paired p (runFrom s m) (runFrom t n)

inductive Agree {α β : Type} (p : α → β → Prop) : Except Fault α → Except Fault β → Prop where
  | ok {a b} (holds : p a b) : Agree p (.ok a) (.ok b)
  | error (f : Fault) : Agree p (.error f) (.error f)

theorem Agree.bind {α β γ δ : Type} {p : α → β → Prop} {q : γ → δ → Prop} {x : Except Fault α}
    {y : Except Fault β} {f : α → Except Fault γ} {g : β → Except Fault δ} (first : Agree p x y)
    (second : ∀ a b, p a b → Agree q (f a) (g b)) : Agree q (x >>= f) (y >>= g) := by
  cases first with
  | ok holds => exact second _ _ holds
  | error f => exact .error f

theorem Agree.same {α : Type} {x y : Except Fault α} (same : x = y) : Agree (· = ·) x y := by
  subst same
  cases x with
  | ok a => exact .ok rfl
  | error f => exact .error f

namespace Tandem
open Eval

variable {d e : Domain} {paired : Ref → Ref → Prop} {α β γ δ : Type}
  {p : (Ref → Ref → Prop) → α → β → Prop} {q : (Ref → Ref → Prop) → γ → δ → Prop}

theorem pure {a : α} {b : β} (holds : p paired a b) :
    Tandem d e paired (pure a) (pure b) p := fun _ _ twins =>
  .valued (fun _ _ pair => pair) twins holds

theorem throw (stop : Stop) : Tandem d e paired (throw stop) (throw stop) p := fun _ _ twins =>
  .stopped (fun _ _ pair => pair) twins

theorem bind {m : Eval Unit α} {n : Eval Unit β} {f : α → Eval Unit γ} {g : β → Eval Unit δ}
    (first : Tandem d e paired m n p)
    (second : ∀ further a b, (∀ r r', paired r r' → further r r') → p further a b →
      Tandem d e further (f a) (g b) q) : Tandem d e paired (m >>= f) (n >>= g) q := by
  intro s t twins
  have ends := first s t twins
  generalize left : runFrom s m = x, right : runFrom t n = y at ends
  cases ends with
  | stopped more twins =>
    rw [runBindStopped left, runBindStopped right]
    exact .stopped more twins
  | @valued a b s' t' further more twins holds =>
    rw [runBind left, runBind right]
    exact (second further a b more holds s' t' twins).wider more

theorem store {f : Store Unit → Eval Unit α} {g : Store Unit → Eval Unit β}
    (rest : ∀ s t, Store.Twins d e paired s t → Tandem d e paired (f s) (g t) p) :
    Tandem d e paired (Eval.store >>= f) (Eval.store >>= g) p :=
  fun s t twins => rest _ _ twins.stores s t twins

theorem heap {f : Heap → Eval Unit α} {g : Heap → Eval Unit β}
    (rest : ∀ h k : Heap, h.Twins d e paired k → Tandem d e paired (f h) (g k) p) :
    Tandem d e paired (Eval.heap >>= f) (Eval.heap >>= g) p :=
  fun s t twins => rest _ _ twins.stores.heaps s t twins

theorem setStore {s t : Store Unit} (stores : s.Twins d e paired t) :
    Tandem d e paired (Eval.setStore s) (Eval.setStore t) fun _ _ _ => True := fun _ _ twins =>
  .valued (fun _ _ pair => pair) ⟨stores, twins.told⟩ trivial

theorem setHeap {h k : Heap} (heaps : h.Twins d e paired k) :
    Tandem d e paired (Eval.setHeap h) (Eval.setHeap k) fun _ _ _ => True :=
  store fun _ _ stores => setStore { stores with heaps := heaps }

theorem fault {r : α → β → Prop} {x : Except Fault α} {y : Except Fault β} (agree : Agree r x y)
    {f : α → Eval Unit γ} {g : β → Eval Unit δ}
    (rest : ∀ a b, r a b → Tandem d e paired (f a) (g b) q) :
    Tandem d e paired (ofFault x >>= f) (ofFault y >>= g) q := by
  cases agree with
  | ok holds => exact rest _ _ holds
  | error f => exact throw _

theorem ofFault {x : Except Fault α} {y : Except Fault β} (agree : Agree (p paired) x y) :
    Tandem d e paired (Eval.ofFault x) (Eval.ofFault y) p := by
  cases agree with
  | ok holds => exact pure holds
  | error f => exact throw _

theorem alloc {o o' : Object} (alike : o.Mirrors (Owners d e) paired o') :
    Tandem d e paired (Eval.alloc o) (Eval.alloc o') Value.Mirrors := by
  refine heap fun h k heaps => ?_
  have further : (h.alloc o).2.Twins d e (Also paired (h.alloc o).1 (k.alloc o').1) (k.alloc o').2 :=
    ⟨heaps.mirrors.alloc alike, heaps.frozen⟩
  intro s t twins
  have last : State.Twins d e (Also paired (h.alloc o).1 (k.alloc o').1)
      (s.withHeap (h.alloc o).2) (t.withHeap (k.alloc o').2) :=
    ⟨{ heaps := further
       bindings := twins.stores.bindings.wider fun _ _ => .inl
       aborted := twins.stores.aborted }, twins.told⟩
  exact .valued (fun _ _ => Or.inl) last (.object (.inr ⟨rfl, rfl⟩))

theorem record {event event' : Event}
    (told : ∀ h k : Heap, h.Twins d e paired k →
      Entry.told? ⟨event, h⟩ = Entry.told? ⟨event', k⟩) :
    Tandem d e paired (Eval.record event) (Eval.record event') fun _ _ _ => True := by
  intro s t twins
  have last := told _ _ twins.stores.heaps
  have before := twins.told
  refine .valued (fun _ _ pair => pair) ⟨twins.stores, ?_⟩ trivial
  simp only [List.filterMap_append, List.filterMap_cons, List.filterMap_nil, last, before]

end Tandem

section Runs

variable {ctx : Context Unit} {e : Domain} {paired : Ref → Ref → Prop}

namespace Tandem
open Eval

theorem checkAborted (location : Option Location) :
    Tandem ctx.domain e paired (checkAborted ctx location)
      (Eval.checkAborted (ctx.moved e) location) fun _ _ _ => True := by
  refine store fun s t stores => ?_
  have same : (ctx.moved e).hasSignal = ctx.hasSignal := rfl
  rw [same, stores.aborted]
  split
  · exact throw _
  · exact pure trivial

variable (alone : ctx.Alone)
include alone

theorem emit {kind : EventKind} (inner : kind ≠ .logged) (event event' : Event) :
    Tandem ctx.domain e paired (emit ctx kind event) (Eval.emit (ctx.moved e) kind event')
      fun _ _ _ => True := by
  have nobody := alone.silent kind inner
  have nobodyElse : (ctx.moved e).listener kind = none := nobody
  rw [Eval.emit, Eval.emit, nobody, nobodyElse]
  exact pure trivial

theorem log {v w : Value} (values : v.Mirrors paired w) :
    Tandem ctx.domain e paired (log ctx v) (Eval.log (ctx.moved e) w) fun _ _ _ => True := by
  have moved : (ctx.moved e).listener .logged = ctx.listener .logged := rfl
  rw [Eval.log, Eval.log, moved]
  rcases alone.logged with nobody | keeper
  · rw [nobody]
    refine heap fun h k heaps => record fun _ _ _ => ?_
    exact congrArg (fun line => some (Told.console line)) (heaps.mirrors.output values)
  · rw [keeper]
    dsimp only
    rw [Eval.emit, Eval.emit, moved, keeper]
    refine (record fun h k heaps => ?_).bind fun further _ _ more _ => store fun s t stores => ?_
    · have lines := heaps.mirrors.output values
      have shapes := heaps.mirrors.shape values
      simp only [Entry.told?, lines, shapes]
    · exact (setStore stores).bind fun _ _ _ _ _ => pure trivial

theorem logAll {vs ws : List Value} (values : Values.Mirror paired vs ws) :
    Tandem ctx.domain e paired (logAll ctx vs) (Eval.logAll (ctx.moved e) ws) fun _ _ _ => True := by
  induction vs generalizing paired ws with
  | nil =>
    cases values
    exact pure trivial
  | cons v vs ih =>
    cases values with
    | cons first rest =>
      exact (log alone first).bind fun further _ _ more _ => ih (Values.Mirror.wider more rest)

end Tandem

end Runs

namespace Eval

variable {d e : Domain} {paired : Ref → Ref → Prop} {h k : Heap} (heaps : h.Twins d e paired k)
  {args others : List Value} (alike : Values.Mirror paired args others) (location : Option Location)

theorem firstMirrors {args others : List Value} (alike : Values.Mirror paired args others) :
    (first args).Mirrors paired (first others) := by
  cases alike with
  | nil => exact .scalar .none
  | cons first _ => exact first

theorem secondMirrors {args others : List Value} (alike : Values.Mirror paired args others) :
    (second args).Mirrors paired (second others) := by
  rcases alike with _ | ⟨_, _ | ⟨second, _⟩⟩
  · exact .scalar .none
  · exact .scalar .none
  · exact second

include alike in
theorem expectSame (function : Text) (count : Nat) :
    Agree (· = ·) (expectCount function args count location)
      (expectCount function others count location) :=
  .same (by rw [expectCount, expectCount, alike.length_eq])

include heaps

theorem argumentSame (function expected : Text) {v w : Value} (values : v.Mirrors paired w) :
    argumentFault h function expected v location = argumentFault k function expected w location := by
  rw [argumentFault, argumentFault, heaps.mirrors.typeName values]

theorem elementsOfAgree (function : Text) {v w : Value} (values : v.Mirrors paired w) :
    Agree (Values.Mirror paired) (elementsOf h function v location) (elementsOf k function w location) := by
  have found := heaps.mirrors.elements? values
  have refused := argumentSame heaps location function anyElements values
  unfold elementsOf
  generalize h.elements? v = x, k.elements? w = y at found
  cases found with
  | some items => exact .ok items
  | none => exact refused ▸ .error _

theorem listOfAgree (function : Text) {v w : Value} (values : v.Mirrors paired w) :
    Agree paired (listOf h function v location) (listOf k function w location) := by
  have found := heaps.mirrors.list? values
  have refused := argumentSame heaps location function (text "a list") values
  unfold listOf
  generalize h.list? v = x, k.list? w = y at found
  cases found with
  | some pair => exact .ok pair
  | none => exact refused ▸ .error _

theorem lengthOfAgree (alike : Values.Mirror paired args others) :
    Agree (Value.Mirrors paired) (lengthOf h args location) (lengthOf k others location) := by
  have length := heaps.mirrors.length? (firstMirrors alike)
  have refused := argumentSame heaps location (Builtin.name .len) anyElements (firstMirrors alike)
  refine (expectSame alike location _ _).bind fun _ _ _ => ?_
  rw [length, refused]
  split
  · exact .ok (.scalar _)
  · exact .error _

theorem extendAgree {r s : Ref} (pair : paired r s) {vs ws : List Value}
    (values : Values.Mirror paired vs ws) :
    Agree (Heap.Twins d e paired) (h.extend r vs location) (k.extend s ws location) := by
  have frozen := heaps.mirrors.frozenList (fun a b owned => by
    rw [owned.1, owned.2, heaps.frozen]) pair
  unfold Heap.extend Heap.mutable
  rw [frozen]
  split
  · exact .error _
  · have items := List.rel_append (heaps.mirrors.items pair) values
    refine .ok ⟨heaps.mirrors.setItems pair items, ?_⟩
    have same := heaps.frozen
    simpa only [Heap.isFrozen, Heap.frozenSetItems] using same

theorem appendToAgree (alike : Values.Mirror paired args others) :
    Agree (Heap.Twins d e paired) (appendTo h args location) (appendTo k others location) :=
  (expectSame alike location _ _).bind fun _ _ _ =>
    (listOfAgree heaps location _ (firstMirrors alike)).bind fun _ _ pair =>
      extendAgree heaps location pair (.cons (secondMirrors alike) .nil)

theorem extendWithAgree (alike : Values.Mirror paired args others) :
    Agree (Heap.Twins d e paired) (extendWith h args location) (extendWith k others location) :=
  (expectSame alike location _ _).bind fun _ _ _ =>
    (listOfAgree heaps location _ (firstMirrors alike)).bind fun _ _ pair =>
      (elementsOfAgree heaps location _ (secondMirrors alike)).bind fun _ _ items =>
        extendAgree heaps location pair items

theorem convertedAgree (b : Builtin) (alike : Values.Mirror paired args others) :
    Agree (Values.Mirror paired) (convertedElements h b args location)
      (convertedElements k b others location) := by
  have empty : args.isEmpty = others.isEmpty := by cases alike <;> rfl
  unfold convertedElements
  rw [empty]
  split
  · exact .ok .nil
  · exact (expectSame alike location _ _).bind fun _ _ _ =>
      elementsOfAgree heaps location _ (firstMirrors alike)

theorem elementAtAgree {o p i j : Value} (objects : o.Mirrors paired p) (indices : i.Mirrors paired j) :
    Agree (Value.Mirrors paired) (elementAt h o i location) (elementAt k p j location) := by
  cases objects with
  | scalar s => exact .error _
  | @object r s pair =>
    have kind := heaps.mirrors.kind pair
    have length := heaps.mirrors.length pair
    cases indices with
    | object inner =>
      simp only [elementAt, kind, heaps.mirrors.typeName (.object inner)]
      exact .error _
    | scalar t =>
      cases t with
      | number x =>
        have found := heaps.mirrors.element? pair x
        simp only [elementAt, kind, length, Heap.outOfRange]
        split
        · generalize h.element? r x = a, k.element? s x = b at found
          cases found with
          | some value => exact .ok value
          | none => exact .error _
        · exact .error _
      | none | bool | string =>
        simp only [elementAt, kind]
        exact .error _

end Eval

end SeqScript
