import SeqScript.Proofs.Run.Ensures
import SeqScript.Proofs.Run.Refusals
import SeqScript.Proofs.Value.Region

/-! Everything that evaluating an expression can do to the state of a run, in single effects. An
evaluation leads through effects to its last state, whether it has a value or stops. -/
namespace SeqScript
open Relation (ReflTransGen)

variable {σ : Type}

def State.withHeap (s : State σ) (h : Heap) : State σ := { s with store := { s.store with heap := h } }

def State.noting (s : State σ) (e : Event) : State σ :=
  { s with trace := s.trace ++ [⟨e, s.store.heap⟩] }

inductive Effect (ctx : Context σ) : State σ → State σ → Prop where
  | noted (s : State σ) (e : Event) : Effect ctx s (s.noting e)
  | heard (s : State σ) (e : Event) {kind listener} (there : ctx.listener kind = some listener) :
      Effect ctx s { s with store := (listener e s.store).2 }
  | made (s : State σ) (o : Object) (owned : o.OwnedBy ctx.domain) :
      Effect ctx s (s.withHeap (s.store.heap.alloc o).2)
  | extended (s : State σ) {r values location h}
      (allowed : s.store.heap.extend r values location = .ok h) : Effect ctx s (s.withHeap h)
  | aborted (s : State σ) : Effect ctx s { s with store := { s.store with aborted := true } }
  | called (s : State σ) (call : Invocation) {name f}
      (there : ctx.functions.get? name = some (.host f)) :
      Effect ctx s { s with store := (f call s.store).2 }

abbrev Leads (ctx : Context σ) : State σ → State σ → Prop := ReflTransGen (Effect ctx)

structure Context.KeepsBindings (ctx : Context σ) (p : Bindings Value → Prop) : Prop where
  host : ∀ name f call (s : Store σ), ctx.functions.get? name = some (.host f) →
    p s.bindings → p (f call s).2.bindings
  listener : ∀ kind listener e (s : Store σ), ctx.listener kind = some listener →
    p s.bindings → p (listener e s).2.bindings

theorem Effect.keepsBindings {ctx : Context σ} {p : Bindings Value → Prop}
    (keeps : ctx.KeepsBindings p) {s t : State σ} (effect : Effect ctx s t)
    (before : p s.store.bindings) : p t.store.bindings := by
  cases effect with
  | heard e there => exact keeps.listener _ _ _ _ there before
  | called call there => exact keeps.host _ _ _ _ there before
  | _ => exact before

theorem Leads.keepsBindings {ctx : Context σ} {p : Bindings Value → Prop}
    (keeps : ctx.KeepsBindings p) {s t : State σ} (leads : Leads ctx s t)
    (before : p s.store.bindings) : p t.store.bindings := by
  induction leads with
  | refl => exact before
  | tail _ effect ih => exact effect.keepsBindings keeps ih

def Leading (ctx : Context σ) {α : Type} (m : Eval σ α) : Prop :=
  ∀ s, Ensures s m (fun _ t => Leads ctx s t) fun _ t => Leads ctx s t

namespace Eval

variable {s : State σ} {α β : Type} {p : α → State σ → Prop} {q : Stop → State σ → Prop}

theorem ensuresRaise {cause : Cause} {location : Option Location}
    (holds : q (.fault ⟨cause, location⟩) s) :
    Ensures s (raise cause location : Eval σ α) p q := holds

theorem ensuresStore {f : Store σ → Eval σ α} (rest : Ensures s (f s.store) p q) :
    Ensures s (store >>= f) p q := rest

theorem ensuresHeap {f : Heap → Eval σ α} (rest : Ensures s (f s.store.heap) p q) :
    Ensures s (heap >>= f) p q := rest

theorem ensuresSetStore {store : Store σ} {f : Unit → Eval σ α}
    (rest : Ensures { s with store := store } (f ()) p q) :
    Ensures s (setStore store >>= f) p q := rest

theorem ensuresSetHeap {h : Heap} {f : Unit → Eval σ α}
    (rest : Ensures (s.withHeap h) (f ()) p q) :
    Ensures s (setHeap h >>= f) p q := rest

theorem ensuresAlloc {p : Value → State σ → Prop} {o : Object}
    (holds : p (.object (s.store.heap.alloc o).1) (s.withHeap (s.store.heap.alloc o).2)) :
    Ensures s (alloc o) p q := holds

theorem ensuresRecord {p : Unit → State σ → Prop} {e : Event} (holds : p () (s.noting e)) :
    Ensures s (record e) p q := holds

theorem ensuresFault {result : Except Fault α} (onOk : ∀ a, result = .ok a → p a s)
    (onFault : ∀ f, result = .error f → q (.fault f) s) :
    Ensures s (ofFault result) p q := by
  cases result with
  | ok a => exact onOk a rfl
  | error f => exact onFault f rfl

end Eval

namespace Context

variable (ctx : Context σ)

def Aborted (s : State σ) : Prop := (ctx.hasSignal && s.store.aborted) = true

theorem builtinFound {name : Text} {c : Callable σ}
    (found : builtinFunctions.get? name = some c) : ∃ b, c = .builtin b := by
  unfold builtinFunctions at found
  generalize Builtin.all = bs at found
  induction bs with
  | nil => cases found
  | cons b rest ih =>
    simp only [List.map_cons, Bindings.get?] at found
    split at found
    · exact ⟨b, (Option.some.inj found).symm⟩
    · exact ih found

theorem hostFound {ctx : Context σ} {given name : Text} {f g : HostFunction σ}
    (found : ctx.functions.get? name = some (.host f))
    (seeded : ctx.functions = functionsWith [(given, g)]) : f = g := by
  have added : (functionsWith [(given, g)]).get? name =
      if given = name then some (.host g) else builtinFunctions.get? name :=
    Bindings.getSet _ _ _ _
  rw [seeded, added] at found
  split at found
  · cases found
    rfl
  · obtain ⟨b, same⟩ := builtinFound found
    cases same

end Context

namespace Eval

variable {s : State σ} {α β : Type} {p : α → State σ → Prop} {q : Stop → State σ → Prop}
variable {ctx : Context σ}

theorem ensuresChecked {p : Unit → State σ → Prop} {location : Option Location}
    (goesOn : ¬ ctx.Aborted s → p () s)
    (stops : ctx.Aborted s → q (.fault ⟨.aborted, location⟩) s) :
    Ensures s (checkAborted ctx location) p q := by
  refine ensuresStore ?_
  split
  · rename_i aborted
    exact ensuresRaise (stops aborted)
  · rename_i running
    exact ensuresPure (goesOn running)

theorem ensuresFunction {name : Text} {location : Option Location} {f : Callable σ → Eval σ α}
    (found : ∀ g, ctx.functions.get? name = some g → Ensures s (f g) p q)
    (missing : ctx.functions.get? name = none →
      q (.fault ⟨.undefinedFunction name, location⟩) s) :
    Ensures s (function ctx name location >>= f) p q := by
  unfold function
  split
  · rename_i g there
    exact found g there
  · rename_i none
    exact missing none

theorem ensuresEmit {p : Unit → State σ → Prop} {kind : EventKind} {e : Event}
    (silent : ctx.listener kind = none → p () s)
    (goesOn : ∀ listener, ctx.listener kind = some listener → (listener e s.store).1 = none →
      p () { s.noting e with store := (listener e s.store).2 })
    (stops : ∀ listener stop, ctx.listener kind = some listener →
      (listener e s.store).1 = some stop →
      q stop { s.noting e with store := (listener e s.store).2 }) :
    Ensures s (emit ctx kind e) p q := by
  unfold emit
  split
  · rename_i nobody
    exact ensuresPure (silent nobody)
  · rename_i listener there
    refine Ensures.bind (ensuresRecord (p := fun _ t => t = s.noting e) rfl) ?_
    rintro _ _ rfl
    refine ensuresStore (ensuresSetStore ?_)
    split
    · rename_i goes
      exact ensuresPure (goesOn listener there goes)
    · rename_i stop stopping
      exact ensuresThrow (stops listener stop there stopping)

end Eval

namespace Leading
open Eval

variable {ctx : Context σ} {α β : Type}

theorem pure (a : α) : Leading ctx (pure a : Eval σ α) := fun _ => ensuresPure .refl

theorem throw (stop : Stop) : Leading ctx (throw stop : Eval σ α) := fun _ => ensuresThrow .refl

theorem bind {m : Eval σ α} {f : α → Eval σ β} (first : Leading ctx m)
    (second : ∀ a, Leading ctx (f a)) : Leading ctx (m >>= f) := fun s =>
  Ensures.bind (first s) fun a t leads =>
    (second a t).weaken (fun _ _ more => leads.trans more) fun _ _ more => leads.trans more

theorem heap {f : Heap → Eval σ α} (rest : ∀ h, Leading ctx (f h)) :
    Leading ctx (Eval.heap >>= f) := fun s => ensuresHeap (rest s.store.heap s)

theorem store {f : Store σ → Eval σ α} (rest : ∀ store, Leading ctx (f store)) :
    Leading ctx (Eval.store >>= f) := fun s => ensuresStore (rest s.store s)

theorem after {m : Eval σ α} {s t : State σ} (leads : Leads ctx s t) (leading : Leading ctx m) :
    Ensures t m (fun _ u => Leads ctx s u) fun _ u => Leads ctx s u :=
  (leading t).weaken (fun _ _ more => leads.trans more) fun _ _ more => leads.trans more

theorem ofFault (result : Except Fault α) : Leading ctx (ofFault result : Eval σ α) := fun _ =>
  ensuresFault (fun _ _ => .refl) fun _ _ => .refl

theorem checkAborted (location : Option Location) : Leading ctx (checkAborted ctx location) :=
  fun _ => ensuresChecked (fun _ => .refl) fun _ => .refl

theorem alloc {o : Object} (owned : o.OwnedBy ctx.domain) : Leading ctx (alloc o : Eval σ Value) :=
  fun s => ensuresAlloc (.single (.made s o owned))

theorem emit (kind : EventKind) (e : Event) : Leading ctx (emit ctx kind e) := by
  intro s
  have heard {listener} (there : ctx.listener kind = some listener) :
      Leads ctx s { s.noting e with store := (listener e s.store).2 } :=
    (ReflTransGen.single (.noted s e)).tail (.heard (s.noting e) e there)
  exact ensuresEmit (fun _ => .refl) (fun listener there _ => heard there)
    fun listener stop there _ => heard there

theorem log (v : Value) : Leading ctx (log ctx v) := by
  unfold Eval.log
  split
  · exact heap fun h s => ensuresRecord (.single (.noted s _))
  · exact emit _ _

theorem logAll (vs : List Value) : Leading ctx (logAll ctx vs) := by
  induction vs with
  | nil => exact pure ()
  | cons v vs ih => exact bind (log v) fun _ => ih

end Leading

namespace Eval

theorem appendToExtends {h h' : Heap} {args : List Value} {location : Option Location}
    (done : appendTo h args location = .ok h') :
    ∃ r, first args = .object r ∧ h.extend r [second args] location = .ok h' := by
  obtain ⟨_, _, done⟩ := okOfBind done
  obtain ⟨r, found, done⟩ := okOfBind done
  exact ⟨r, (listOfList found).1, done⟩

theorem extendWithExtends {h h' : Heap} {args : List Value} {location : Option Location}
    (done : extendWith h args location = .ok h') :
    ∃ r values, first args = .object r ∧ h.elements? (second args) = some values ∧
      h.extend r values location = .ok h' := by
  obtain ⟨_, _, done⟩ := okOfBind done
  obtain ⟨r, found, done⟩ := okOfBind done
  obtain ⟨values, held, done⟩ := okOfBind done
  exact ⟨r, values, (listOfList found).1, elementsOfElements held, done⟩

end Eval

namespace Leading
open Eval

variable {ctx : Context σ}

theorem changing {f : Heap → Except Fault Heap}
    (extended : ∀ h h', f h = .ok h' → ∃ r values location, h.extend r values location = .ok h') :
    Leading ctx (do setHeap (← Eval.ofFault (f (← Eval.heap))); return Value.none : Eval σ Value) := by
  intro s
  refine ensuresHeap (Ensures.bind (ensuresFault (p := fun h t => Leads ctx s (t.withHeap h))
    (fun h done => ?_) fun _ _ => .refl) fun h t leads => ensuresSetHeap (ensuresPure leads))
  obtain ⟨r, values, location, allowed⟩ := extended _ _ done
  exact .single (.extended s allowed)

theorem applyBuiltin (b : Builtin) (args : List Value) (location : Option Location) :
    Leading ctx (applyBuiltin ctx b args location) := by
  cases b with
  | len => exact heap fun h => ofFault _
  | append =>
    refine changing fun h h' done => ?_
    obtain ⟨r, _, extended⟩ := appendToExtends done
    exact ⟨r, _, location, extended⟩
  | extend =>
    refine changing fun h h' done => ?_
    obtain ⟨r, values, _, _, extended⟩ := extendWithExtends done
    exact ⟨r, values, location, extended⟩
  | list => exact heap fun h => bind (ofFault _) fun items => alloc rfl
  | tuple =>
    refine heap fun h => bind (ofFault _) fun items => heap fun h => ?_
    split
    · exact pure _
    · exact alloc trivial
  | print => exact bind (logAll args) fun _ => pure _

theorem await (name : Text) (location : Option Location) (l : Later) :
    Leading ctx (await ctx name location l) := by
  refine bind (checkAborted location) fun _ => ?_
  cases l with
  | resolves v => exact pure v
  | rejects stop => exact throw stop
  | hangs =>
    dsimp only
    split
    · exact throw _
    · exact throw _
  | aborts =>
    intro s
    refine ensuresStore (ensuresSetStore ?_)
    refine after (.single (.aborted s)) (bind (checkAborted location) fun _ => ?_)
    split
    · exact throw _
    · exact throw _

theorem applyHost {f : HostFunction σ} {name : Text} (there : ctx.functions.get? name = some (.host f))
    (args : List Value) (location : Option Location) :
    Leading ctx (applyHost ctx f name args location) := by
  intro s
  refine ensuresStore (ensuresSetStore (after (.single (.called s _ there)) ?_))
  split
  · exact pure _
  · exact throw _
  · exact await _ _ _

theorem apply {f : Callable σ} {name : Text} (there : ctx.functions.get? name = some f)
    (args : List Value) (location : Option Location) :
    Leading ctx (apply ctx f name args location) := by
  cases f with
  | builtin b => exact applyBuiltin b args location
  | host f => exact applyHost there args location

theorem invoke {f : Callable σ} {name : Text} (there : ctx.functions.get? name = some f)
    (args : List Value) (location : Option Location) :
    Leading ctx (invoke ctx f name args location) :=
  bind (emit _ _) fun _ => bind (apply there args location) fun v => bind (emit _ _) fun _ => pure v

theorem function {name : Text} {location : Option Location} {f : Callable σ → Eval σ α}
    (rest : ∀ g, ctx.functions.get? name = some g → Leading ctx (f g)) :
    Leading ctx (Eval.function ctx name location >>= f) := fun s =>
  ensuresFunction (fun g there => rest g there s) fun _ => .refl

theorem lookup (name : Text) (location : Option Location) :
    Leading ctx (lookup name location : Eval σ Value) := by
  refine store fun s => ?_
  split
  · exact pure _
  · exact throw _

theorem applyUnary (op : UnaryOp) (v : Value) (location : Option Location) :
    Leading ctx (applyUnary op v location : Eval σ Value) := by
  cases op with
  | not => exact heap fun h => pure _
  | negate =>
    simp only [Eval.applyUnary]
    split
    · exact pure _
    · exact heap fun h => throw _

theorem allocSequence (kind : SequenceKind) (items : List Value) :
    Leading ctx (allocSequence ctx kind items) := by
  cases kind with
  | list => exact alloc rfl
  | tuple => exact alloc trivial

mutual

theorem expr (e : Expr) : Leading ctx (Eval.expr ctx e) := by
  match e with
  | .literal v span => exact bind (checkAborted _) fun _ => pure _
  | .sequence kind elements span =>
    exact bind (checkAborted _) fun _ => bind (slots _ 0 elements) fun items => allocSequence kind items
  | .name n span => exact bind (checkAborted _) fun _ => lookup _ _
  | .call callee args span =>
    exact bind (checkAborted _) fun _ => function fun f there => bind (exprs args) fun vs =>
      invoke there _ _
  | .subscript object index span =>
    exact bind (checkAborted _) fun _ => bind (expr object) fun o => bind (expr index) fun i =>
      heap fun h => ofFault _
  | .unary op operand span =>
    exact bind (checkAborted _) fun _ => bind (expr operand) fun v => applyUnary _ _ _

theorem slots (literal : Expr) (index : Nat) (elements : List (Option Expr)) :
    Leading ctx (Eval.slots ctx literal index elements) := by
  match elements with
  | [] => exact pure _
  | none :: _ => exact bind (checkAborted _) fun _ => throw _
  | some e :: rest =>
    exact bind (checkAborted _) fun _ => bind (expr e) fun v => bind (slots literal (index + 1) rest)
      fun vs => pure _

theorem exprs (es : List Expr) : Leading ctx (Eval.exprs ctx es) := by
  match es with
  | [] => exact pure _
  | e :: rest => exact bind (expr e) fun v => bind (exprs rest) fun vs => pure _

end

end Leading

end SeqScript
