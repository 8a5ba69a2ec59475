import Mathlib.Data.List.Basic
import SeqScript.Proofs.Run.Begins
import SeqScript.Proofs.Value.Sequences

/-! Histories of calls on lists. Lists are called through their methods and through the builtins,
by any reference that leads to them, and domains are frozen in between. What the calls answer and
leave is what they do to mathematical sequences, and a call that is refused leaves nothing. -/
namespace SeqScript
open Stepper (runFrom)

inductive Grower where
  | append | extend

def Grower.builtin : Grower → Builtin
  | .append => .append
  | .extend => .extend

inductive ListCall where
  | method (m : Method) (location : Option Location)
  | builtin (b : Grower) (args : List Value) (location : Option Location)
  | freeze (d : Domain)

inductive Grower.Means (w : Sequences) : Grower → Value → Value → Method → Prop where
  | append {r v} (list : (w.object r).kind = .list) : Means w .append (.object r) v (.append r v)
  | extend {r v supply} (list : (w.object r).kind = .list) (supplies : v.supply? = some supply) :
      Means w .extend (.object r) v (.extend r supply)

def Grower.grow (h : Heap) (args : List Value) (location : Option Location) :
    Grower → Except Fault Heap
  | .append => Eval.appendTo h args location
  | .extend => Eval.extendWith h args location

namespace Grower

variable {h : Heap} {b : Grower} {location : Option Location}

theorem Means.called {target v : Value} {m : Method} (means : b.Means h.sequences target v m) :
    m.call h location = (b.grow h [target, v] location).map (none, ·) := by
  cases means with
  | @append r v list =>
    have target : h.list? (.object r) = some r := if_pos list
    simp only [grow, Eval.appendTo, Eval.listOf, Eval.first, List.headD_cons, target]
    rfl
  | @extend r v supply list supplies =>
    have target : h.list? (.object r) = some r := if_pos list
    have supplied : h.elements? v = some (h.supplied supply) := by
      rw [Heap.elementsSupplied, supplies]
      rfl
    simp only [grow, Eval.extendWith, Eval.listOf, Eval.elementsOf, Eval.first, Eval.second,
      List.headD_cons, List.getD_cons_succ, List.getD_cons_zero, target, supplied]
    rfl

theorem growMiscounted {args : List Value} (count : args.length ≠ 2) :
    b.grow h args location =
      .error ⟨.argumentCount b.builtin.name 2 args.length, location⟩ := by
  have counted (function : Text) : Eval.expectCount function args 2 location =
      .error ⟨.argumentCount function 2 args.length, location⟩ := if_neg count
  cases b <;> simp only [grow, builtin, Eval.appendTo, Eval.extendWith, counted] <;> rfl

theorem growUnlisted {target v : Value} (other : ∀ r, target = .object r → h.kind r ≠ .list) :
    b.grow h [target, v] location =
      .error ⟨.argumentType b.builtin.name (text "a list") (h.typeName target), location⟩ := by
  have none : h.list? target = none := by
    cases target with
    | scalar c => rfl
    | object r => exact if_neg (other r rfl)
  cases b <;>
    simp only [grow, builtin, Eval.appendTo, Eval.extendWith, Eval.listOf, Eval.first,
      List.headD_cons, none] <;>
    rfl

theorem extendUnsupplied {r : Ref} {v : Value} (list : h.kind r = .list)
    (other : v.supply? = none) : extend.grow h [.object r, v] location =
      .error ⟨.argumentType Builtin.extend.name (text "a list, tuple or string") (h.typeName v),
        location⟩ := by
  have target : h.list? (.object r) = some r := if_pos list
  have none : h.elements? v = none := by rw [Heap.elementsSupplied, other, Option.map_none]
  simp only [grow, Eval.extendWith, Eval.listOf, Eval.elementsOf, Eval.first, Eval.second,
    List.headD_cons, List.getD_cons_succ, List.getD_cons_zero, target, none]
  rfl

end Grower

namespace ListCall

variable {σ : Type}

inductive Acts (w : Sequences) : ListCall → Option Value → Sequences → Prop where
  | method {m location answer w'} (acts : m.Acts w answer w') :
      Acts w (.method m location) answer w'
  | builtin {b target v m location answer w'} (means : b.Means w target v m)
      (acts : m.Acts w answer w') :
      Acts w (.builtin b [target, v] location) (some .none) w'
  | freeze {d} : Acts w (.freeze d) none (w.freeze d)

inductive Refused (w : Sequences) : ListCall → Fault → Prop where
  | method {m location cause} (refused : m.Refused w cause) :
      Refused w (.method m location) ⟨cause, location⟩
  | builtin {b target v m location cause} (means : b.Means w target v m)
      (refused : m.Refused w cause) :
      Refused w (.builtin b [target, v] location) ⟨cause, location⟩
  | miscounted {b args location} (count : args.length ≠ 2) :
      Refused w (.builtin b args location) ⟨.argumentCount b.builtin.name 2 args.length, location⟩
  | unlisted {b target v location}
      (other : ∀ r, target = .object r → (w.object r).kind ≠ .list) :
      Refused w (.builtin b [target, v] location)
        ⟨.argumentType b.builtin.name (text "a list") (w.typeName target), location⟩
  | unsupplied {r v location} (list : (w.object r).kind = .list) (other : v.supply? = none) :
      Refused w (.builtin .extend [.object r, v] location)
        ⟨.argumentType Builtin.extend.name (text "a list, tuple or string") (w.typeName v),
          location⟩

/-- Calls one after the other. Behind a refusal they go on with the same sequences. -/
inductive ActsAll : Sequences → List ListCall → List (Except Stop (Option Value)) →
    Sequences → Prop where
  | none {w} : ActsAll w [] [] w
  | acts {w w' w'' c calls answer outcomes} (first : Acts w c answer w')
      (rest : ActsAll w' calls outcomes w'') : ActsAll w (c :: calls) (.ok answer :: outcomes) w''
  | refused {w w' c calls fault outcomes} (first : Refused w c fault)
      (rest : ActsAll w calls outcomes w') :
      ActsAll w (c :: calls) (.error (.fault fault) :: outcomes) w'

def target? : ListCall → Option Ref
  | .method m _ => m.target?
  | .builtin _ _ _ | .freeze _ => none

def perform (ctx : Context σ) : ListCall → Eval σ (Option Value)
  | .method m location => do
    let (answer, h) ← Eval.ofFault (m.call (← Eval.heap) location)
    Eval.setHeap h
    return answer
  | .builtin b args location => return some (← Eval.applyBuiltin ctx b.builtin args location)
  | .freeze d => do
    Eval.setHeap ((← Eval.heap).freeze d)
    return none

def performAll (ctx : Context σ) : List ListCall → State σ →
    List (Except Stop (Option Value)) × State σ
  | [], s => ([], s)
  | c :: calls, s =>
    let (outcome, s') := runFrom s (c.perform ctx)
    let (outcomes, s'') := performAll ctx calls s'
    (outcome :: outcomes, s'')

variable {ctx : Context σ} {s : State σ}

theorem runHeap {α : Type} {f : Heap → Eval σ α} :
    runFrom s (Eval.heap >>= f) = runFrom s (f s.store.heap) := rfl

theorem builtinGrows (b : Grower) (args : List Value) (location : Option Location) :
    Eval.applyBuiltin ctx b.builtin args location = (do
      Eval.setHeap (← Eval.ofFault (b.grow (← Eval.heap) args location))
      return Value.none) := by
  cases b <;> rfl

theorem runGrown {b : Grower} {args : List Value} {location : Option Location} {h : Heap}
    (grown : b.grow s.store.heap args location = .ok h) :
    runFrom s ((builtin b args location).perform ctx) = (.ok (some .none), s.withHeap h) := by
  refine runBind (a := Value.none) ?_
  rw [builtinGrows, runHeap, grown]
  rfl

theorem runUngrown {b : Grower} {args : List Value} {location : Option Location} {fault : Fault}
    (refused : b.grow s.store.heap args location = .error fault) :
    runFrom s ((builtin b args location).perform ctx) = (.error (.fault fault), s) := by
  refine runBindStopped ?_
  rw [builtinGrows, runHeap, refused]
  rfl

theorem Acts.performed (ctx : Context σ) {c : ListCall} {answer : Option Value} {w : Sequences}
    (acts : c.Acts s.store.heap.sequences answer w) :
    ∃ h, runFrom s (c.perform ctx) = (.ok answer, s.withHeap h) ∧ h.sequences = w := by
  cases acts with
  | @method m location answer w acts =>
    obtain ⟨h, called, same⟩ := acts.called location
    refine ⟨h, ?_, same⟩
    rw [perform, runHeap, called]
    rfl
  | @builtin b target v m location answer w means acts =>
    obtain ⟨h, called, same⟩ := acts.called location
    refine ⟨h, runGrown ?_, same⟩
    rw [means.called] at called
    cases grown : b.grow s.store.heap [target, v] location with
    | error fault => rw [grown] at called; cases called
    | ok h' => rw [grown] at called; cases called; rfl
  | @freeze d => exact ⟨_, rfl, Heap.sequencesFreeze d⟩

theorem Refused.performed {c : ListCall} {fault : Fault}
    (refused : c.Refused s.store.heap.sequences fault) :
    runFrom s (c.perform ctx) = (.error (.fault fault), s) := by
  cases refused with
  | @method m location cause refused =>
    rw [perform, runHeap, refused.called location]
    rfl
  | @builtin b target v m location cause means refused =>
    have called := refused.called location
    rw [means.called] at called
    refine runUngrown ?_
    cases grown : b.grow s.store.heap [target, v] location with
    | error fault => rw [grown] at called; cases called; rfl
    | ok h' => rw [grown] at called; cases called
  | @miscounted b args location count => exact runUngrown (Grower.growMiscounted count)
  | @unlisted b target v location other => exact runUngrown (Grower.growUnlisted other)
  | @unsupplied r v location list other => exact runUngrown (Grower.extendUnsupplied list other)

theorem actsOrRefused {w : Sequences} (c : ListCall)
    (lists : ∀ r, c.target? = some r → (w.object r).kind = .list) :
    (∃ answer w', c.Acts w answer w') ∨ ∃ fault, c.Refused w fault := by
  cases c with
  | method m location =>
    rcases m.actsOrRefused lists with ⟨answer, w', acts⟩ | ⟨cause, refused⟩
    · exact .inl ⟨_, _, .method acts⟩
    · exact .inr ⟨_, .method refused⟩
  | freeze d => exact .inl ⟨_, _, .freeze⟩
  | builtin b args location =>
    have meant {target v : Value} {m : Method} {r : Ref} (means : b.Means w target v m)
        (changes : m.target? = some r) (list : (w.object r).kind = .list) :
        (∃ answer w', Acts w (.builtin b [target, v] location) answer w') ∨
          ∃ fault, Refused w (.builtin b [target, v] location) fault := by
      have lists (t : Ref) (same : m.target? = some t) : (w.object t).kind = .list := by
        cases changes.symm.trans same
        exact list
      rcases m.actsOrRefused lists with ⟨answer, w', acts⟩ | ⟨cause, refused⟩
      · exact .inl ⟨_, _, .builtin means acts⟩
      · exact .inr ⟨_, .builtin means refused⟩
    by_cases count : args.length = 2
    · obtain ⟨target, v, rfl⟩ := List.length_eq_two.mp count
      by_cases list : ∃ r, target = .object r ∧ (w.object r).kind = .list
      · obtain ⟨r, rfl, list⟩ := list
        cases b with
        | append => exact meant (.append list) rfl list
        | extend =>
          cases supplies : v.supply? with
          | none => exact .inr ⟨_, .unsupplied list supplies⟩
          | some supply => exact meant (.extend list supplies) rfl list
      · exact .inr ⟨_, .unlisted fun r same kind => list ⟨r, same, kind⟩⟩
    · exact .inr ⟨_, .miscounted count⟩

theorem Acts.kind {w w' : Sequences} {c : ListCall} {answer : Option Value}
    (acts : c.Acts w answer w') (t : Ref) : (w'.object t).kind = (w.object t).kind := by
  cases acts with
  | method acts | builtin _ acts => exact acts.kind t
  | freeze => rfl

theorem Refused.id {w : Sequences} {c : ListCall} {fault : Fault} (refused : c.Refused w fault) :
    fault.cause.id = .frozenMutation ∨ fault.cause.id = .indexOutOfRange ∨
      fault.cause.id = .typeMismatch := by
  cases refused with
  | method refused | builtin _ refused => exact refused.id.imp_right .inl
  | miscounted | unlisted | unsupplied => exact .inr (.inr rfl)

theorem actsAllExists {calls : List ListCall} : ∀ {w : Sequences},
    (∀ c ∈ calls, ∀ r, c.target? = some r → (w.object r).kind = .list) →
      ∃ outcomes w', ActsAll w calls outcomes w' := by
  induction calls with
  | nil => exact fun _ => ⟨[], _, .none⟩
  | cons c calls ih =>
    intro w lists
    obtain ⟨here, later⟩ := List.forall_mem_cons.mp lists
    rcases c.actsOrRefused here with ⟨answer, w', acts⟩ | ⟨fault, refused⟩
    · obtain ⟨outcomes, w'', rest⟩ := ih fun d there r target =>
        (acts.kind r).trans (later d there r target)
      exact ⟨_, _, .acts acts rest⟩
    · obtain ⟨outcomes, w', rest⟩ := ih later
      exact ⟨_, _, .refused refused rest⟩

theorem performAllCons {c : ListCall} {outcome : Except Stop (Option Value)} {t : State σ}
    (ran : runFrom s (c.perform ctx) = (outcome, t)) (calls : List ListCall) :
    performAll ctx (c :: calls) s =
      (outcome :: (performAll ctx calls t).1, (performAll ctx calls t).2) := by
  rw [performAll, ran]

theorem ActsAll.performed (ctx : Context σ) {calls : List ListCall} : ∀ {s : State σ}
    {outcomes : List (Except Stop (Option Value))} {w : Sequences},
    ActsAll s.store.heap.sequences calls outcomes w →
      outcomes = (performAll ctx calls s).1 ∧
        w = (performAll ctx calls s).2.store.heap.sequences := by
  induction calls with
  | nil =>
    intro s outcomes w all
    cases all
    exact ⟨rfl, rfl⟩
  | cons c calls ih =>
    intro s outcomes w all
    cases all with
    | acts first rest =>
      obtain ⟨h, ran, rfl⟩ := first.performed ctx
      obtain ⟨same, left⟩ := ih (s := s.withHeap h) rest
      rw [performAllCons ran, ← same, ← left]
      exact ⟨rfl, rfl⟩
    | refused first rest =>
      obtain ⟨same, left⟩ := ih rest
      rw [performAllCons first.performed, ← same, ← left]
      exact ⟨rfl, rfl⟩

theorem ActsAll.kind {calls : List ListCall} : ∀ {w w' : Sequences}
    {outcomes : List (Except Stop (Option Value))}, ActsAll w calls outcomes w' →
      ∀ t, (w'.object t).kind = (w.object t).kind := by
  intro w w' outcomes all t
  induction all with
  | none => rfl
  | acts first _ ih => exact ih.trans (first.kind t)
  | refused _ _ ih => exact ih

structure Atomic (ctx : Context σ) (c : ListCall) (s : State σ) : Prop where
  unchanged : ∀ stop t, runFrom s (c.perform ctx) = (.error stop, t) →
    t = s ∧ ∃ fault, stop = .fault fault ∧ c.Refused s.store.heap.sequences fault ∧
      (fault.cause.id = .frozenMutation ∨ fault.cause.id = .indexOutOfRange ∨
        fault.cause.id = .typeMismatch)
  frozen : ∀ m location r, c = .method m location → m.target? = some r →
    s.store.heap.isFrozenList r = true →
      runFrom s (c.perform ctx) = (.error (.fault ⟨.frozenList, location⟩), s)

theorem atomic {c : ListCall}
    (lists : ∀ r, c.target? = some r → s.store.heap.kind r = .list) : c.Atomic ctx s where
  unchanged stop t stopped := by
    rcases c.actsOrRefused (w := s.store.heap.sequences) lists with
      ⟨answer, w, acts⟩ | ⟨fault, refused⟩
    · obtain ⟨h, ran, _⟩ := acts.performed ctx
      cases ran.symm.trans stopped
    · cases refused.performed.symm.trans stopped
      exact ⟨rfl, fault, rfl, refused, refused.id⟩
  frozen m location r same changes frozen := by
    subst same
    have refused : m.Refused s.store.heap.sequences .frozenList := by
      unfold Heap.isFrozenList at frozen
      split at frozen
      · exact .frozen changes ‹_› frozen
      · cases frozen
    exact Refused.performed (.method refused)

/- Whatever lists refer to, a history of calls has the outcomes that mathematical sequences have and
leaves the objects that they leave: every change is made to one object and is seen by all that
refer to it. A call that is refused changes nothing at all, and a frozen list refuses every
change for that reason alone. -/
theorem listsActAsSequences (ctx : Context σ) (s : State σ) (calls : List ListCall)
    (lists : ∀ c ∈ calls, ∀ r, c.target? = some r → s.store.heap.kind r = .list) :
    (∀ outcomes w, ActsAll s.store.heap.sequences calls outcomes w ↔
      outcomes = (performAll ctx calls s).1 ∧
        w = (performAll ctx calls s).2.store.heap.sequences) ∧
    ∀ before c after, calls = before ++ c :: after →
      c.Atomic ctx (performAll ctx before s).2 := by
  constructor
  · intro outcomes w
    refine ⟨ActsAll.performed ctx, ?_⟩
    rintro ⟨rfl, rfl⟩
    obtain ⟨outcomes, w, all⟩ := actsAllExists (w := s.store.heap.sequences) lists
    obtain ⟨same, left⟩ := all.performed ctx
    rwa [same, left] at all
  · rintro before c after rfl
    have earlier : ∀ d ∈ before, ∀ r, d.target? = some r → s.store.heap.kind r = .list :=
      fun d there => lists d (List.mem_append_left _ there)
    obtain ⟨outcomes, w, all⟩ := actsAllExists (w := s.store.heap.sequences) earlier
    obtain ⟨_, left⟩ := all.performed ctx
    refine atomic fun r target => ?_
    have kind := all.kind r
    rw [left] at kind
    exact kind.trans (lists c (by simp) r target)

def crossed : Heap :=
  ⟨#[.list 0 [.number .one, .object 0], .list 1 [.object 0]], 2, []⟩

def crossedCalls : List ListCall := [
  .builtin .extend [.object 0, .object 0] none,
  .freeze 1,
  .method (.set 1 (.ofInt 7) (.bool true)) none,
  .method (.pop 0 (some (.ofInt (-4)))) none,
  .method (.get 0 (.ofInt (-1))) none]

theorem crossedLists : ∀ c ∈ crossedCalls, ∀ r, c.target? = some r → crossed.kind r = .list := by
  intro c there r target
  simp only [crossedCalls, List.mem_cons, List.not_mem_nil, or_false] at there
  rcases there with rfl | rfl | rfl | rfl | rfl <;> cases target <;> rfl

def crossedStart : State Unit := ⟨⟨crossed, [], false, ()⟩, []⟩

theorem crossedListsAct :
    (∀ c ∈ crossedCalls, ∀ r, c.target? = some r → crossed.kind r = .list) ∧
    ActsAll crossed.sequences crossedCalls
      [.ok (some .none), .ok none, .error (.fault ⟨.frozenList, none⟩), .ok (some (.number .one)),
        .ok (some (.object 0))]
      (performAll (Context.plain 0) crossedCalls crossedStart).2.store.heap.sequences ∧
    (performAll (Context.plain 0) crossedCalls crossedStart).2.store.heap.items 0 =
      [.object 0, .number .one, .object 0] := by
  have outcomes : [.ok (some .none), .ok none, .error (.fault ⟨.frozenList, none⟩),
      .ok (some (.number .one)), .ok (some (.object 0))] =
        (performAll (Context.plain 0) crossedCalls crossedStart).1 := by decide +kernel
  have acts := (listsActAsSequences (Context.plain 0) crossedStart crossedCalls crossedLists).1
  exact ⟨crossedLists, (acts _ _).mpr ⟨outcomes, rfl⟩, by decide +kernel⟩

end ListCall

end SeqScript
