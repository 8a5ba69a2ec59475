import SeqScript.Proofs.Run.Begins

/-! What evaluations are made of, and what they tell. A property of computations that the few
operations of evaluating have, and that is kept when one computation follows another, is one of
every expression and every statement. Telling is such a property: an evaluation adds events behind
those that were told before it, and only calls, returns and logged values. -/
namespace SeqScript
open Stepper (runFrom)

variable {σ : Type}

def Event.Inner : Event → Prop
  | .call _ _ | .returned _ _ | .logged _ => True
  | _ => False

structure Applied (ctx : Context σ) (P : (α : Type) → Eval σ α → Prop) : Prop where
  pure : ∀ {α : Type} (a : α), P α (pure a)
  fault : ∀ {α : Type} (f : Fault), P α (throw (.fault f))
  bind : ∀ {α β : Type} {m : Eval σ α} {f : α → Eval σ β}, P α m → (∀ a, P β (f a)) → P β (m >>= f)
  store : P (Store σ) Eval.store
  setStore : ∀ s, P Unit (Eval.setStore s)
  log : ∀ v, P Unit (Eval.log ctx v)
  host : ∀ {name f} args location, ctx.functions.get? name = some (.host f) →
    P Value (Eval.applyHost ctx f name args location)

structure Closed (ctx : Context σ) (P : (α : Type) → Eval σ α → Prop) : Prop
    extends Applied ctx P where
  emit : ∀ kind e, e.Inner → P Unit (Eval.emit ctx kind e)
  function : ∀ {α : Type} name location {f : Callable σ → Eval σ α},
    (∀ g, ctx.functions.get? name = some g → P α (f g)) →
    P α (Eval.function ctx name location >>= f)

namespace Applied

variable {ctx : Context σ} {P : (α : Type) → Eval σ α → Prop}

theorem heap (applied : Applied ctx P) : P Heap Eval.heap :=
  applied.bind applied.store fun _ => applied.pure _

theorem setHeap (applied : Applied ctx P) (h : Heap) : P Unit (Eval.setHeap h) :=
  applied.bind applied.store fun _ => applied.setStore _

theorem alloc (applied : Applied ctx P) (o : Object) : P Value (Eval.alloc o) :=
  applied.bind applied.heap fun _ => applied.bind (applied.setHeap _) fun _ => applied.pure _

theorem ofFault (applied : Applied ctx P) {α : Type} (result : Except Fault α) :
    P α (Eval.ofFault result) := by
  cases result with
  | ok a => exact applied.pure a
  | error f => exact applied.fault f

theorem checkAborted (applied : Applied ctx P) (location : Option Location) :
    P Unit (Eval.checkAborted ctx location) := by
  refine applied.bind applied.store fun store => ?_
  split
  · exact applied.fault _
  · exact applied.pure ()

theorem logAll (applied : Applied ctx P) (vs : List Value) : P Unit (Eval.logAll ctx vs) := by
  induction vs with
  | nil => exact applied.pure ()
  | cons v vs ih => exact applied.bind (applied.log v) fun _ => ih

theorem applyBuiltin (applied : Applied ctx P) (b : Builtin) (args : List Value)
    (location : Option Location) : P Value (Eval.applyBuiltin ctx b args location) := by
  have changing (f : Heap → Except Fault Heap) :
      P Value (do Eval.setHeap (← Eval.ofFault (f (← Eval.heap))); return Value.none) :=
    applied.bind applied.heap fun _ => applied.bind (applied.ofFault _) fun _ =>
      applied.bind (applied.setHeap _) fun _ => applied.pure _
  cases b with
  | len => exact applied.bind applied.heap fun _ => applied.ofFault _
  | append => exact changing fun h => Eval.appendTo h args location
  | extend => exact changing fun h => Eval.extendWith h args location
  | list =>
    exact applied.bind applied.heap fun _ => applied.bind (applied.ofFault _) fun _ => applied.alloc _
  | tuple =>
    refine applied.bind applied.heap fun _ => applied.bind (applied.ofFault _) fun items =>
      applied.bind applied.heap fun h => ?_
    split
    · exact applied.pure _
    · exact applied.alloc _
  | print => exact applied.bind (applied.logAll args) fun _ => applied.pure _

theorem apply (applied : Applied ctx P) {f : Callable σ} {name : Text}
    (there : ctx.functions.get? name = some f) (args : List Value) (location : Option Location) :
    P Value (Eval.apply ctx f name args location) := by
  cases f with
  | builtin b => exact applied.applyBuiltin b args location
  | host f => exact applied.host args location there

theorem lookup (applied : Applied ctx P) (name : Text) (location : Option Location) :
    P Value (Eval.lookup name location) := by
  refine applied.bind applied.store fun store => ?_
  split
  · exact applied.pure _
  · exact applied.fault _

theorem applyUnary (applied : Applied ctx P) (op : UnaryOp) (v : Value) (location : Option Location) :
    P Value (Eval.applyUnary op v location) := by
  cases op with
  | not => exact applied.bind applied.heap fun _ => applied.pure _
  | negate =>
    simp only [Eval.applyUnary]
    split
    · exact applied.pure _
    · exact applied.bind applied.heap fun _ => applied.fault _

theorem allocSequence (applied : Applied ctx P) (kind : SequenceKind) (items : List Value) :
    P Value (Eval.allocSequence ctx kind items) := by
  cases kind with
  | list => exact applied.alloc _
  | tuple => exact applied.alloc _

end Applied

namespace Closed

variable {ctx : Context σ} {P : (α : Type) → Eval σ α → Prop}

theorem invoke (closed : Closed ctx P) {f : Callable σ} {name : Text}
    (there : ctx.functions.get? name = some f) (args : List Value) (location : Option Location) :
    P Value (Eval.invoke ctx f name args location) :=
  closed.bind (closed.emit _ _ trivial) fun _ => closed.bind (closed.apply there args location)
    fun _ => closed.bind (closed.emit _ _ trivial) fun _ => closed.pure _

mutual

theorem expr (closed : Closed ctx P) (e : Expr) : P Value (Eval.expr ctx e) := by
  match e with
  | .literal v span => exact closed.bind (closed.checkAborted _) fun _ => closed.pure _
  | .sequence kind elements span =>
    exact closed.bind (closed.checkAborted _) fun _ => closed.bind (slots closed _ 0 elements)
      fun items => closed.allocSequence kind items
  | .name n span => exact closed.bind (closed.checkAborted _) fun _ => closed.lookup _ _
  | .call callee args span =>
    exact closed.bind (closed.checkAborted _) fun _ => closed.function _ _ fun f there =>
      closed.bind (exprs closed args) fun vs => closed.invoke there vs _
  | .subscript object index span =>
    exact closed.bind (closed.checkAborted _) fun _ => closed.bind (expr closed object) fun o =>
      closed.bind (expr closed index) fun i => closed.bind closed.heap fun h => closed.ofFault _
  | .unary op operand span =>
    exact closed.bind (closed.checkAborted _) fun _ => closed.bind (expr closed operand) fun v =>
      closed.applyUnary _ _ _

theorem slots (closed : Closed ctx P) (literal : Expr) (index : Nat) (elements : List (Option Expr)) :
    P (List Value) (Eval.slots ctx literal index elements) := by
  match elements with
  | [] => exact closed.pure _
  | none :: _ => exact closed.bind (closed.checkAborted _) fun _ => closed.fault _
  | some e :: rest =>
    exact closed.bind (closed.checkAborted _) fun _ => closed.bind (expr closed e) fun v =>
      closed.bind (slots closed literal (index + 1) rest) fun vs => closed.pure _

theorem exprs (closed : Closed ctx P) (es : List Expr) : P (List Value) (Eval.exprs ctx es) := by
  match es with
  | [] => exact closed.pure _
  | e :: rest =>
    exact closed.bind (expr closed e) fun v => closed.bind (exprs closed rest) fun vs => closed.pure _

end

theorem statement (closed : Closed ctx P) (statement : Statement) :
    P Value (Eval.statement ctx statement) := by
  refine closed.bind (closed.checkAborted _) fun _ => ?_
  cases statement with
  | expression e span => exact closed.expr e
  | assignment target value span =>
    exact closed.bind (closed.expr value) fun v =>
      closed.bind (closed.bind closed.store fun _ => closed.setStore _) fun _ => closed.pure v

end Closed

def Context.Observed (ctx : Context σ) : Prop :=
  ∀ kind, ∃ listener, ctx.listener kind = some listener ∧ ∀ e s, (listener e s).1 = none

theorem Context.Observed.there {ctx : Context σ} (observed : ctx.Observed) (kind : EventKind) :
    (ctx.listener kind).isSome := by
  obtain ⟨listener, there, _⟩ := observed kind
  rw [there, Option.isSome_some]

namespace State

def events (s : State σ) : List Event := s.trace.map Entry.event

def since (s t : State σ) : List Event := t.events.drop s.events.length

structure TellsInner (s t : State σ) : Prop where
  kept : t.events = s.events ++ s.since t
  inner : ∀ e ∈ s.since t, e.Inner

theorem tellsInner {s t : State σ} {new : List Event} (same : t.events = s.events ++ new)
    (inner : ∀ e ∈ new, e.Inner) : s.TellsInner t := by
  have found : s.since t = new := by rw [since, same, List.drop_left]
  exact ⟨by rw [found, same], by rwa [found]⟩

theorem TellsInner.quiet {s t : State σ} (same : t.trace = s.trace) : s.TellsInner t := by
  have kept : t.events = s.events ++ [] := by rw [List.append_nil, events, same, events]
  exact tellsInner kept fun e member => absurd member List.not_mem_nil

theorem TellsInner.trans {s t u : State σ} (first : s.TellsInner t) (second : t.TellsInner u) :
    s.TellsInner u := by
  have kept : u.events = s.events ++ (s.since t ++ t.since u) := by
    rw [← List.append_assoc, ← first.kept, ← second.kept]
  refine tellsInner kept fun e member => ?_
  · rcases List.mem_append.mp member with early | late
    · exact first.inner e early
    · exact second.inner e late

end State

def Tells {α : Type} (m : Eval σ α) : Prop :=
  ∀ s, Ensures s m (fun _ t => s.TellsInner t) fun _ t => s.TellsInner t

variable {ctx : Context σ}

theorem emitObserved (observed : ctx.Observed) (kind : EventKind) (e : Event) (s : State σ) :
    ∃ t, runFrom s (Eval.emit ctx kind e) = (.ok (), t) ∧ t.events = s.events ++ [e] := by
  obtain ⟨listener, there, silent⟩ := observed kind
  have told : Ensures s (Eval.emit ctx kind e)
      (fun _ t => t.events = s.events ++ [e]) fun _ _ => False := by
    refine Eval.ensuresEmit (fun nobody => ?_) (fun _ _ _ => ?_) fun _ stop found stops => ?_
    · rw [there] at nobody
      cases nobody
    · simp [State.events, State.noting]
    · rw [there] at found
      cases found
      rw [silent] at stops
      cases stops
  rcases told.outcome with ⟨_, t, run, kept⟩ | ⟨_, _, _, never⟩
  · exact ⟨t, run, kept⟩
  · exact never.elim

def Mute {α : Type} (m : Eval σ α) : Prop :=
  ∀ s, Ensures s m (fun _ t => t.trace = s.trace) fun _ t => t.trace = s.trace

namespace Mute

theorem pure {α : Type} (a : α) : Mute (pure a : Eval σ α) := fun _ => ensuresPure rfl

theorem throw {α : Type} (stop : Stop) : Mute (throw stop : Eval σ α) := fun _ => ensuresThrow rfl

theorem bind {α β : Type} {m : Eval σ α} {f : α → Eval σ β} (first : Mute m)
    (second : ∀ a, Mute (f a)) : Mute (m >>= f) := fun s =>
  Ensures.bind (first s) fun a t same =>
    (second a t).weaken (fun _ _ more => more.trans same) fun _ _ more => more.trans same

theorem store : Mute (Eval.store : Eval σ (Store σ)) := fun s => (rfl : s.trace = s.trace)

theorem setStore (store : Store σ) : Mute (Eval.setStore store) := fun _ => ensuresModify rfl

theorem checkAborted (location : Option Location) : Mute (Eval.checkAborted ctx location) :=
  fun _ => Eval.ensuresChecked (fun _ => rfl) fun _ => rfl

theorem await (name : Text) (location : Option Location) (l : Later) :
    Mute (Eval.await ctx name location l) := by
  refine bind (checkAborted location) fun _ => ?_
  cases l with
  | resolves v => exact pure v
  | rejects stop => exact throw stop
  | hangs =>
    dsimp only
    split
    · exact throw _
    · exact throw _
  | aborts =>
    refine bind store fun _ => bind (setStore _) fun _ => bind (checkAborted location) fun _ => ?_
    split
    · exact throw _
    · exact throw _

theorem applyHost (f : HostFunction σ) (name : Text) (args : List Value)
    (location : Option Location) : Mute (Eval.applyHost ctx f name args location) := by
  refine bind store fun store => bind (setStore _) fun _ => ?_
  split
  · exact pure _
  · exact throw _
  · exact await name location _

end Mute

namespace Tells

theorem mute {α : Type} {m : Eval σ α} (mute : Mute m) : Tells m := fun s =>
  (mute s).weaken (fun _ _ same => .quiet same) fun _ _ same => .quiet same

theorem bind {α β : Type} {m : Eval σ α} {f : α → Eval σ β} (first : Tells m)
    (second : ∀ a, Tells (f a)) : Tells (m >>= f) := fun s =>
  Ensures.bind (first s) fun a t told =>
    (second a t).weaken (fun _ _ more => told.trans more) fun _ _ more => told.trans more

theorem emit (observed : ctx.Observed) (kind : EventKind) {e : Event} (inner : e.Inner) :
    Tells (Eval.emit ctx kind e) := by
  intro s
  obtain ⟨t, run, kept⟩ := emitObserved observed kind e s
  have ran : (Eval.emit ctx kind e).run.run s = (.ok (), t) := run
  unfold Ensures
  rw [ran]
  exact State.tellsInner kept (List.forall_mem_singleton.mpr inner)

theorem closed (observed : ctx.Observed) : Closed ctx fun _ m => Tells m where
  pure a := mute (.pure a)
  fault f := mute (.throw (.fault f))
  bind := bind
  store := mute .store
  setStore store := mute (.setStore store)
  emit kind e inner := emit observed kind inner
  log v := by
    obtain ⟨listener, there, _⟩ := observed .logged
    unfold Eval.log
    rw [there]
    exact emit observed .logged trivial
  function name location f found _ := Eval.ensuresFunction (fun g there => found g there _) fun _ => .quiet rfl
  host args location _ := mute (.applyHost _ _ args location)

end Tells

theorem statementTells (observed : ctx.Observed) (statement : Statement) (s : State σ) :
    s.TellsInner (runFrom s (Eval.statement ctx statement)).2 := by
  unfold runFrom
  rcases ((Tells.closed observed).statement statement s).outcome with
    ⟨v, t, run, told⟩ | ⟨stop, t, run, told⟩
  · rw [run]
    exact told
  · rw [run]
    exact told

end SeqScript
