import Mathlib.Data.List.Forall2
import SeqScript.Proofs.Fault.Report
import SeqScript.Proofs.Run.Begins
import SeqScript.Proofs.Tree.Bare

/-! Two runs of scripts that differ in their places only. As long as the runs go on they are in one
state. They stop for the same reason, and only then does a place show: in the fault, in its message and
in the event that tells it. -/
namespace SeqScript
open List (Forall₂)
open Stepper (runFrom)

variable {σ : Type}

structure Report.Alike (r r' : Report) : Prop where
  reportClass : r.reportClass = r'.reportClass
  id : r.id = r'.id
  context : r.context = r'.context
  data : r.data.message = r'.data.message
  message : ∃ m,
    r.message = m ++ locationSuffix r.location ∧ r'.message = m ++ locationSuffix r'.location

inductive Stop.Alike : Stop → Stop → Prop where
  | fault {f g : Fault} (cause : f.cause = g.cause) (reports : f.report.Alike g.report) :
      Alike (.fault f) (.fault g)
  | same (stop : Stop) : Alike stop stop
  | unreadable {instead instead' : Stop} (read : Alike instead instead') :
      Alike (.unreadable instead) (.unreadable instead')

inductive Event.Alike : Event → Event → Prop where
  | failed (index : Nat) {stop stop' : Stop} (stops : stop.Alike stop') :
      Alike (.failed index stop) (.failed index stop')
  | same (e : Event) : Alike e e

structure Entry.Alike (e e' : Entry) : Prop where
  events : e.event.Alike e'.event
  heap : e.heap = e'.heap

structure State.Alike (s t : State σ) : Prop where
  store : s.store = t.store
  trace : Forall₂ Entry.Alike s.trace t.trace

inductive EndsAlike {α : Type} : Except Stop α → Except Stop α → Prop where
  | value (a : α) : EndsAlike (.ok a) (.ok a)
  | stopped {stop stop' : Stop} (stops : stop.Alike stop') : EndsAlike (.error stop) (.error stop')

inductive Reply.Alike : Reply → Reply → Prop where
  | raised {stop stop' : Stop} (stops : stop.Alike stop') : Alike (.raised stop) (.raised stop')
  | rejects {stop stop' : Stop} (stops : stop.Alike stop') :
      Alike (.later (.rejects stop)) (.later (.rejects stop'))
  | same (r : Reply) : Alike r r

def HostFunction.Unplaced (f : HostFunction σ) : Prop :=
  ∀ args l l' d s, (f ⟨args, l, d⟩ s).1.Alike (f ⟨args, l', d⟩ s).1 ∧
    (f ⟨args, l, d⟩ s).2 = (f ⟨args, l', d⟩ s).2

def Listener.Unplaced (listener : Listener σ) : Prop :=
  ∀ index stop stop' s, stop.Alike stop' →
    Option.Rel Stop.Alike (listener (.failed index stop) s).1 (listener (.failed index stop') s).1 ∧
      (listener (.failed index stop) s).2 = (listener (.failed index stop') s).2

/-- Neither the functions of a host nor what listens to failed steps makes use of places. No other
listener is ever told one. -/
structure Context.Unplaced (ctx : Context σ) : Prop where
  functions : ∀ name f, ctx.functions.get? name = some (.host f) → HostFunction.Unplaced f
  listener : ∀ listener, ctx.listener .failed = some listener → listener.Unplaced

theorem Fault.alike {f g : Fault} (cause : f.cause = g.cause)
    (data : f.report.data.message = g.report.data.message) : Stop.Alike (.fault f) (.fault g) := by
  obtain ⟨c, l⟩ := f
  obtain ⟨c', l'⟩ := g
  cases cause
  exact .fault rfl ⟨rfl, rfl, rfl, data, c.message, rfl, rfl⟩

theorem Cause.Plain.alike {c : Cause} (plain : c.Plain) (l l' : Option Location) :
    Stop.Alike (.fault ⟨c, l⟩) (.fault ⟨c, l'⟩) :=
  Fault.alike rfl ((plain.data l).trans (plain.data l').symm)

namespace Stop.Alike

variable {a b c : Stop}

theorem symm (alike : a.Alike b) : b.Alike a := by
  induction alike with
  | same stop => exact .same stop
  | fault cause reports => exact Fault.alike cause.symm reports.data.symm
  | unreadable _ ih => exact .unreadable ih

theorem trans (first : a.Alike b) (second : b.Alike c) : a.Alike c := by
  induction first generalizing c with
  | same => exact second
  | fault cause reports =>
    cases second with
    | same => exact .fault cause reports
    | fault cause' reports' => exact Fault.alike (cause.trans cause') (reports.data.trans reports'.data)
  | unreadable read ih =>
    cases second with
    | same => exact .unreadable read
    | unreadable read' => exact .unreadable (ih read')

theorem stalled (alike : a.Alike b) : a = .stalled ↔ b = .stalled := by
  cases alike with
  | same => rfl
  | fault | unreadable => exact ⟨fun never => (by cases never), fun never => by cases never⟩

theorem unread (alike : a.Alike b) : Option.Rel Alike a.unread? b.unread? := by
  cases alike with
  | same =>
    cases a.unread? with
    | none => exact .none
    | some instead => exact .some (.same instead)
  | fault => exact .none
  | unreadable read => exact .some read

end Stop.Alike

theorem EndsAlike.refl {α : Type} : (ends : Except Stop α) → EndsAlike ends ends
  | .ok a => .value a
  | .error stop => .stopped (.same stop)

theorem EndsAlike.reports {α : Type} {f g : Fault}
    (ends : EndsAlike (.error (.fault f) : Except Stop α) (.error (.fault g))) :
    f.report.Alike g.report := by
  cases ends with
  | stopped stops =>
    cases stops with
    | fault cause reports => exact reports
    | same => exact ⟨rfl, rfl, rfl, rfl, f.cause.message, rfl, rfl⟩

theorem State.Alike.refl (s : State σ) : s.Alike s :=
  ⟨rfl, List.forall₂_same.mpr fun e _ => ⟨.same e.event, rfl⟩⟩

theorem State.Alike.freeze {s t : State σ} (alike : s.Alike t) (d : Domain) :
    (Stepper.freeze d s).Alike (Stepper.freeze d t) := by
  refine ⟨?_, alike.trace⟩
  rw [Stepper.freeze, Stepper.freeze, alike.store]

inductive SameRun {α : Type} : Except Stop α × State σ → Except Stop α × State σ → Prop where
  | value (a : α) (s : State σ) : SameRun (.ok a, s) (.ok a, s)
  | stopped {stop stop' : Stop} (stops : stop.Alike stop') (s : State σ) :
      SameRun (.error stop, s) (.error stop', s)

def Parallel {α : Type} (m n : Eval σ α) : Prop := ∀ s, SameRun (runFrom s m) (runFrom s n)

inductive Anywhere {α : Type} : (Option Location → Except Fault α) → Prop where
  | ok (a : α) : Anywhere fun _ => .ok a
  | error {c : Cause} (plain : c.Plain) : Anywhere fun l => .error ⟨c, l⟩

theorem Anywhere.bind {α β : Type} {f : Option Location → Except Fault α}
    {g : α → Option Location → Except Fault β} (first : Anywhere f) (second : ∀ a, Anywhere (g a)) :
    Anywhere fun l => f l >>= fun a => g a l := by
  cases first with
  | ok a => exact second a
  | error plain => exact .error plain

namespace Eval

theorem argumentAnywhere {α : Type} (h : Heap) (function expected : Text) (v : Value) :
    Anywhere fun l => (.error (argumentFault h function expected v l) : Except Fault α) :=
  .error (Cause.plainShown rfl rfl (h.typeNamePlain v))

theorem expectAnywhere (function : Text) (args : List Value) (count : Nat) :
    Anywhere (expectCount function args count) := by
  unfold expectCount
  split
  · exact .ok ()
  · exact .error (Cause.plainWords rfl rfl)

theorem elementsOfAnywhere (h : Heap) (function : Text) (v : Value) :
    Anywhere (elementsOf h function v) := by
  unfold elementsOf
  split
  · exact .ok _
  · exact argumentAnywhere h function anyElements v

theorem listOfAnywhere (h : Heap) (function : Text) (v : Value) : Anywhere (listOf h function v) := by
  unfold listOf
  split
  · exact .ok _
  · exact argumentAnywhere h function (text "a list") v

theorem lengthOfAnywhere (h : Heap) (args : List Value) : Anywhere (lengthOf h args) := by
  refine (expectAnywhere _ args 1).bind fun _ => ?_
  split
  · exact .ok _
  · exact argumentAnywhere h _ anyElements (first args)

theorem extendAnywhere (h : Heap) (r : Ref) (values : List Value) : Anywhere (h.extend r values) := by
  unfold Heap.extend Heap.mutable
  split
  · exact .error (Cause.plainWords rfl rfl)
  · exact .ok _

theorem appendToAnywhere (h : Heap) (args : List Value) : Anywhere (appendTo h args) :=
  (expectAnywhere _ args 2).bind fun _ => (listOfAnywhere h _ (first args)).bind fun r =>
    extendAnywhere h r [second args]

theorem extendWithAnywhere (h : Heap) (args : List Value) : Anywhere (extendWith h args) :=
  (expectAnywhere _ args 2).bind fun _ => (listOfAnywhere h _ (first args)).bind fun r =>
    (elementsOfAnywhere h _ (second args)).bind fun values => extendAnywhere h r values

theorem convertedAnywhere (h : Heap) (b : Builtin) (args : List Value) :
    Anywhere (convertedElements h b args) := by
  unfold convertedElements
  split
  · exact .ok []
  · exact (expectAnywhere _ args 1).bind fun _ => elementsOfAnywhere h _ (first args)

theorem elementAtAnywhere (h : Heap) (object index : Value) : Anywhere (elementAt h object index) := by
  unfold elementAt
  split
  · exact .error (Cause.plainWords rfl rfl)
  · split
    · split
      · split
        · exact .ok _
        · exact .error (Cause.plainWords rfl rfl)
      · exact .error (Cause.plainWords rfl rfl)
    · exact .error (Cause.plainShown rfl rfl (h.typeNamePlain _))

end Eval

namespace Parallel
open Eval

variable {α β : Type} {m n o : Eval σ α}

theorem refl (m : Eval σ α) : Parallel m m := by
  intro s
  rcases runFrom s m with ⟨stop | a, t⟩
  · exact .stopped (.same stop) t
  · exact .value a t

theorem symm (parallel : Parallel m n) : Parallel n m := by
  intro s
  have same := parallel s
  generalize runFrom s m = x, runFrom s n = y at same
  cases same with
  | value a t => exact .value a t
  | stopped stops t => exact .stopped stops.symm t

theorem trans (first : Parallel m n) (second : Parallel n o) : Parallel m o := by
  intro s
  have one := first s
  have two := second s
  generalize runFrom s m = x, runFrom s n = y, runFrom s o = z at *
  cases one with
  | value a t => exact two
  | stopped stops t =>
    cases two with
    | stopped stops' t => exact .stopped (stops.trans stops') t

theorem throw {stop stop' : Stop} (stops : stop.Alike stop') :
    Parallel (throw stop : Eval σ α) (throw stop') := .stopped stops

theorem raise {c : Cause} (plain : c.Plain) (l l' : Option Location) :
    Parallel (raise c l : Eval σ α) (Eval.raise c l') := throw (plain.alike l l')

theorem bind {f g : α → Eval σ β} (first : Parallel m n) (second : ∀ a, Parallel (f a) (g a)) :
    Parallel (m >>= f) (n >>= g) := by
  intro s
  have same := first s
  generalize left : runFrom s m = x, right : runFrom s n = y at same
  cases same with
  | value a t =>
    rw [runBind left, runBind right]
    exact second a t
  | stopped stops t =>
    rw [runBindStopped left, runBindStopped right]
    exact .stopped stops t

theorem behind {f g : α → Eval σ β} (rest : ∀ a, Parallel (f a) (g a)) :
    Parallel (m >>= f) (m >>= g) := (refl m).bind rest

theorem ofFault {f : Option Location → Except Fault α} (anywhere : Anywhere f) (l l' : Option Location) :
    Parallel (Eval.ofFault (f l) : Eval σ α) (Eval.ofFault (f l')) := by
  cases anywhere with
  | ok a => exact refl _
  | error plain => exact raise plain l l'

variable {ctx : Context σ}

theorem checkAborted (l l' : Option Location) :
    Parallel (checkAborted ctx l) (Eval.checkAborted ctx l') := by
  refine behind fun store => ?_
  split
  · exact raise (Cause.plainWords rfl rfl) l l'
  · exact refl _

theorem applyBuiltin (b : Builtin) (args : List Value) (l l' : Option Location) :
    Parallel (applyBuiltin ctx b args l) (Eval.applyBuiltin ctx b args l') := by
  cases b with
  | len => exact behind fun h => ofFault (lengthOfAnywhere h args) l l'
  | append =>
    exact behind fun h => (ofFault (appendToAnywhere h args) l l').bind fun changed => refl _
  | extend =>
    exact behind fun h => (ofFault (extendWithAnywhere h args) l l').bind fun changed => refl _
  | list =>
    exact behind fun h => (ofFault (convertedAnywhere h _ args) l l').bind fun items => refl _
  | tuple =>
    exact behind fun h => (ofFault (convertedAnywhere h _ args) l l').bind fun items => refl _
  | print => exact refl _

theorem expire (name : Text) (l l' : Option Location) :
    Parallel
      (match ctx.timeout with
        | some ms => Eval.raise (.timedOut name ms) l
        | none => MonadExcept.throw Stop.stalled : Eval σ Value)
      (match ctx.timeout with
        | some ms => Eval.raise (.timedOut name ms) l'
        | none => MonadExcept.throw Stop.stalled) := by
  cases ctx.timeout with
  | some ms => exact raise (Cause.plainWords rfl rfl) l l'
  | none => exact refl _

theorem await (name : Text) (l l' : Option Location) (later : Later) :
    Parallel (await ctx name l later) (Eval.await ctx name l' later) := by
  refine (checkAborted l l').bind fun _ => ?_
  cases later with
  | resolves v => exact refl _
  | rejects stop => exact refl _
  | hangs => exact expire name l l'
  | aborts =>
    exact behind fun store => behind fun _ => (checkAborted l l').bind fun _ => expire name l l'

theorem apply (unplaced : ctx.Unplaced) {f : Callable σ} {name : Text}
    (there : ctx.functions.get? name = some f) (args : List Value) (l l' : Option Location) :
    Parallel (apply ctx f name args l) (Eval.apply ctx f name args l') := by
  cases f with
  | builtin b => exact applyBuiltin b args l l'
  | host f =>
    refine behind fun store => ?_
    obtain ⟨replies, stores⟩ := unplaced.functions name f there args l l' ctx.domain store
    generalize f ⟨args, l, ctx.domain⟩ store = x, f ⟨args, l', ctx.domain⟩ store = y at replies stores
    obtain ⟨reply, after⟩ := x
    obtain ⟨reply', after'⟩ := y
    cases stores
    refine behind fun _ => ?_
    cases replies with
    | raised stops => exact throw stops
    | rejects stops => exact (checkAborted l l').bind fun _ => throw stops
    | same reply =>
      cases reply with
      | value v => exact refl _
      | raised stop => exact refl _
      | later answer => exact await name l l' answer

theorem invoke (unplaced : ctx.Unplaced) {f : Callable σ} {name : Text}
    (there : ctx.functions.get? name = some f) (args : List Value) (l l' : Option Location) :
    Parallel (invoke ctx f name args l) (Eval.invoke ctx f name args l') :=
  behind fun _ => (apply unplaced there args l l').bind fun _ => refl _

theorem lookup (name : Text) (l l' : Option Location) :
    Parallel (lookup name l : Eval σ Value) (Eval.lookup name l') := by
  refine behind fun store => ?_
  cases store.bindings.get? name with
  | some v => exact refl _
  | none => exact raise (Cause.plainWords rfl rfl) l l'

theorem function {name : Text} {l l' : Option Location} {f g : Callable σ → Eval σ α}
    (rest : ∀ c, ctx.functions.get? name = some c → Parallel (f c) (g c)) :
    Parallel (Eval.function ctx name l >>= f) (Eval.function ctx name l' >>= g) := by
  unfold Eval.function
  cases there : ctx.functions.get? name with
  | some c => exact rest c there
  | none => exact raise (Cause.plainWords rfl rfl) l l'

theorem applyUnary (op : UnaryOp) (v : Value) (l l' : Option Location) :
    Parallel (applyUnary op v l : Eval σ Value) (Eval.applyUnary op v l') := by
  cases op with
  | not => exact refl _
  | negate =>
    unfold Eval.applyUnary
    dsimp only
    split
    · exact refl _
    · exact behind fun h => raise (Cause.plainShown rfl rfl (h.typeNamePlain _)) l l'

/- Each tree runs in parallel with its bare tree, so that the induction is on one tree only. -/
mutual

theorem expr (unplaced : ctx.Unplaced) (e : Expr) :
    Parallel (Eval.expr ctx e) (Eval.expr ctx e.bare) := by
  match e with
  | .literal s span => exact (checkAborted _ _).bind fun _ => refl _
  | .sequence kind elements span =>
    have summary := Expr.summaryBare ctx.limits (.sequence kind elements span)
    have plain := Expr.sequenceSummaryPlain ctx.limits kind elements span
    exact (checkAborted _ _).bind fun _ => (slots unplaced summary plain 0 elements).bind fun items =>
      refl _
  | .name n span => exact (checkAborted _ _).bind fun _ => lookup n _ _
  | .call callee args span =>
    exact (checkAborted _ _).bind fun _ => function fun f there => (exprs unplaced args).bind fun vs =>
      invoke unplaced there vs _ _
  | .subscript object index span =>
    exact (checkAborted _ _).bind fun _ => (expr unplaced object).bind fun o =>
      (expr unplaced index).bind fun i => behind fun h => ofFault (elementAtAnywhere h o i) _ _
  | .unary op operand span =>
    exact (checkAborted _ _).bind fun _ => (expr unplaced operand).bind fun v =>
      applyUnary op v _ _

theorem slots (unplaced : ctx.Unplaced) {literal other : Expr}
    (summary : other.summary ctx.limits = literal.summary ctx.limits)
    (plain : (literal.summary ctx.limits).EndsPlain) (index : Nat) (elements : List (Option Expr)) :
    Parallel (Eval.slots ctx literal index elements)
      (Eval.slots ctx other index (Expr.bareSlots elements)) := by
  match elements with
  | [] => exact refl _
  | none :: rest =>
    refine (checkAborted _ _).bind fun _ => ?_
    rw [summary]
    exact raise (Cause.plainShown rfl rfl plain) _ _
  | some e :: rest =>
    exact (checkAborted _ _).bind fun _ => (expr unplaced e).bind fun v =>
      (slots unplaced summary plain (index + 1) rest).bind fun vs => refl _

theorem exprs (unplaced : ctx.Unplaced) (es : List Expr) :
    Parallel (Eval.exprs ctx es) (Eval.exprs ctx (Expr.bareAll es)) := by
  match es with
  | [] => exact refl _
  | e :: rest => exact (expr unplaced e).bind fun v => (exprs unplaced rest).bind fun vs => refl _

end

theorem bareStatement (unplaced : ctx.Unplaced) (x : Statement) :
    Parallel (Eval.statement ctx x) (Eval.statement ctx x.bare) := by
  refine (checkAborted _ _).bind fun _ => ?_
  cases x with
  | expression e span => exact expr unplaced e
  | assignment target value span => exact (expr unplaced value).bind fun v => refl _

theorem statement (unplaced : ctx.Unplaced) {x y : Statement} (same : x.bare = y.bare) :
    Parallel (Eval.statement ctx x) (Eval.statement ctx y) :=
  (bareStatement unplaced x).trans (same ▸ (bareStatement unplaced y).symm)

end Parallel

end SeqScript
