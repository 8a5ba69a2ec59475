import SeqScript.Proofs.Run.Reasons
import SeqScript.Proofs.Run.Recorded
import SeqScript.Proofs.Run.Timeline

/-! What an abort leaves to a run. The ticks of a run without an abort come first, and those with one
pending come last; nothing starts among them, and whatever a node still does there it does behind all
of its parts. The invariant is stated for timed computations behind nodes that have begun before, so
that it is kept when one computation follows another. -/
namespace SeqScript
open Stepper (runFrom)

variable {σ : Type}

structure Context.Signals (ctx : Context σ) : Prop where
  hostKeeps : ∀ {name f} call (s : Store σ), ctx.functions.get? name = some (.host f) →
    s.aborted = true → (f call s).2.aborted = true
  listenerKeeps : ∀ {kind listener} e (s : Store σ), ctx.listener kind = some listener →
    s.aborted = true → (listener e s).2.aborted = true

def Context.CanWait (ctx : Context σ) (s : State σ) : Prop :=
  ¬ ctx.Aborted s ∨ ctx.Gives .stalled ∨ ctx.Gives (.unreadable .stalled)

variable {ctx : Context σ}

theorem Effect.keepsAbort (signals : ctx.Signals) {s t : State σ} (effect : Effect ctx s t)
    (aborted : s.store.aborted = true) : t.store.aborted = true := by
  cases effect with
  | noted => exact aborted
  | heard e there => exact signals.listenerKeeps e _ there aborted
  | made => exact aborted
  | extended => exact aborted
  | aborted => rfl
  | called call there => exact signals.hostKeeps call _ there aborted

theorem Leads.keepsAbort (signals : ctx.Signals) {s t : State σ} (leads : Leads ctx s t)
    (aborted : s.store.aborted = true) : t.store.aborted = true := by
  induction leads with
  | refl => exact aborted
  | tail _ effect ih => exact effect.keepsAbort signals ih

def Waits (ctx : Context σ) {α : Type} (m : Eval σ α) : Prop :=
  ∀ s, Ensures s m (fun _ _ => True) fun stop t => stop = .stalled → ctx.CanWait t

namespace Waits

theorem fault {α : Type} (f : Fault) : Waits ctx (throw (.fault f) : Eval σ α) := fun _ =>
  ensuresThrow nofun

theorem emit (kind : EventKind) (e : Event) : Waits ctx (Eval.emit ctx kind e) := fun s =>
  Eval.ensuresEmit (fun _ => trivial) (fun _ _ _ => trivial) fun listener _ there stops stalled =>
    .inr (.inl (.inl ⟨kind, listener, e, s.store, there, stalled ▸ stops⟩))

theorem await {l : Later} (given : l = .rejects .stalled → ctx.Gives .stalled) (name : Text)
    (location : Option Location) : Waits ctx (Eval.await ctx name location l) := by
  intro s
  refine Ensures.bind (r := fun _ t => ¬ ctx.Aborted t)
    (Eval.ensuresChecked id fun _ => nofun) fun _ t running => ?_
  cases l with
  | resolves v => exact ensuresPure trivial
  | rejects stop => exact ensuresThrow fun stalled => .inr (.inl (given (congrArg Later.rejects stalled)))
  | hangs =>
    dsimp only
    split
    · exact Eval.ensuresRaise nofun
    · exact ensuresThrow fun _ => .inl running
  | aborts =>
    refine Eval.ensuresStore (Eval.ensuresSetStore (Ensures.bind (r := fun _ u => ¬ ctx.Aborted u)
      (Eval.ensuresChecked id fun _ => nofun) fun _ u running => ?_))
    split
    · exact Eval.ensuresRaise nofun
    · exact ensuresThrow fun _ => .inl running

theorem host {f : HostFunction σ} {name : Text}
    (there : ctx.functions.get? name = some (.host f)) (args : List Value)
    (location : Option Location) : Waits ctx (Eval.applyHost ctx f name args location) := by
  intro s
  have answers (answer : (f ⟨args, location, ctx.domain⟩ s.store).1 = .raised .stalled ∨
      (f ⟨args, location, ctx.domain⟩ s.store).1 = .later (.rejects .stalled)) : ctx.Gives .stalled :=
    .inr ⟨name, f, _, s.store, there, answer⟩
  refine Eval.ensuresStore (Eval.ensuresSetStore ?_)
  split
  · exact ensuresPure trivial
  · rename_i stop replied
    exact ensuresThrow fun stalled => .inr (.inl (answers (.inl (stalled ▸ replied))))
  · rename_i l replied
    exact await (fun rejects => answers (.inr (rejects ▸ replied))) name location _

theorem closed : Closed ctx fun _ m => Waits ctx m where
  pure _ _ := ensuresPure trivial
  fault := fault
  bind first second s := Ensures.bind (first s) fun a t _ => second a t
  store s := (trivial : True)
  setStore store s := ensuresModify trivial
  emit kind e _ := emit kind e
  log v := by
    unfold Eval.log
    split
    · exact fun s => Eval.ensuresHeap (Eval.ensuresRecord trivial)
    · exact emit .logged _
  function name location f found s :=
    Eval.ensuresFunction (fun g there => found g there s) fun _ => nofun
  host args location there := host there args location

end Waits

def Steady (ctx : Context σ) {α : Type} (m : Eval σ α) : Prop :=
  ∀ s, (s.store.aborted = true → (runFrom s m).2.store.aborted = true) ∧
    ((runFrom s m).1 = .error .stalled → ctx.CanWait (runFrom s m).2)

theorem steady (signals : ctx.Signals) {α : Type} {m : Eval σ α} (leading : Leading ctx m)
    (waits : Waits ctx m) : Steady ctx m := by
  intro s
  refine ⟨(leading.run s).keepsAbort signals, fun stalled => ?_⟩
  have outcome := waits s
  unfold Ensures at outcome
  unfold runFrom at stalled ⊢
  split at outcome
  · rename_i ran
    rw [ran] at stalled
    cases stalled
  · rename_i stop t ran
    rw [ran] at stalled ⊢
    cases stalled
    exact outcome rfl

def Flows : Bool → List Tick → Bool → Prop
  | a, [], b => a = true → b = true
  | a, x :: xs, b => (a = true → x.late = true) ∧ Flows x.late xs b

namespace Flows

theorem append {a b c : Bool} {xs ys : List Tick} (first : Flows a xs b) (second : Flows b ys c) :
    Flows a (xs ++ ys) c := by
  induction xs generalizing a with
  | nil =>
    cases ys with
    | nil => exact fun pending => second (first pending)
    | cons y ys => exact ⟨fun pending => second.1 (first pending), second.2⟩
  | cons x xs ih => exact ⟨first.1, ih first.2⟩

theorem still (moments : List Moment) (a : Bool) :
    Flows a (moments.map fun m => ⟨m, a⟩) a := by
  induction moments with
  | nil => exact id
  | cons m moments ih => exact ⟨id, ih⟩

theorem late {b : Bool} {xs : List Tick} (flows : Flows true xs b) : ∀ x ∈ xs, x.late = true := by
  induction xs with
  | nil => exact List.forall_mem_nil _
  | cons x xs ih =>
    have first : x.late = true := flows.1 rfl
    have others := flows.2
    rw [first] at others
    exact List.forall_mem_cons.mpr ⟨first, ih others⟩

theorem split {a b : Bool} {xs : List Tick} (flows : Flows a xs b) :
    ∃ early after, xs = early ++ after ∧ (∀ x ∈ early, x.late = false) ∧
      ∀ x ∈ after, x.late = true := by
  induction xs generalizing a with
  | nil => exact ⟨[], [], rfl, List.forall_mem_nil _, List.forall_mem_nil _⟩
  | cons x xs ih =>
    cases pending : x.late with
    | false =>
      obtain ⟨early, after, rfl, before, behind⟩ := ih flows.2
      exact ⟨x :: early, after, rfl, List.forall_mem_cons.mpr ⟨pending, before⟩, behind⟩
    | true =>
      have others := flows.2
      rw [pending] at others
      exact ⟨[], x :: xs, rfl, List.forall_mem_nil _,
        List.forall_mem_cons.mpr ⟨pending, others.late⟩⟩

end Flows

def Stop.IsAbort (stop : Stop) : Prop := ∃ location, stop = .fault ⟨.aborted, location⟩

def Begun (ticks : List Tick) (p : Place) : Prop := ∃ x ∈ ticks, x.moment = .begins p

theorem Begun.append {xs ys : List Tick} {p : Place} :
    Begun (xs ++ ys) p ↔ Begun xs p ∨ Begun ys p := by
  simp [Begun, or_and_right, exists_or]

/-- What is true of a timed run behind nodes that have begun: its ticks are in order, nothing starts
late, nodes act behind all their parts; it ends well only if certain places have begun, and what stops
it is the last to happen. -/
structure Fine (ctx : Context σ) (before covers : List Place) {α : Type} (s : State σ)
    (outcome : Except Stop α) (t : State σ) (ticks : List Tick) : Prop where
  flows : Flows (ctx.late s) ticks (ctx.late t)
  starts : ∀ x ∈ ticks, x.moment.Starts → x.late = false
  acts : ∀ x ∈ ticks, ∀ q nodes, x.moment = .acts q nodes →
    ∀ r ∈ nodes, r ∈ before ∨ Begun ticks r
  covered : ∀ a, outcome = .ok a → ∀ r ∈ covers, Begun ticks r
  stopped : ∀ stop, outcome = .error stop → ∃ xs q late, ticks = xs ++ [⟨.stops q stop, late⟩] ∧
    (stop.IsAbort ∨ ctx.Throws stop ∨ q ∈ before ∨ Begun xs q)
  waits : outcome = .error .stalled → ctx.CanWait t

theorem Fine.stop {before covers covers' : List Place} {α β : Type} {s t : State σ} {stop : Stop}
    {ticks : List Tick} (fine : Fine ctx before covers s (.error stop : Except Stop α) t ticks) :
    Fine ctx before covers' s (.error stop : Except Stop β) t ticks := by
  refine { fine with covered := nofun, stopped := fun other failed => ?_, waits := fun stalled => ?_ }
  · cases failed
    exact fine.stopped stop rfl
  · cases stalled
    exact fine.waits rfl

theorem Fine.append {before covers others : List Place} {α β : Type} {s t u : State σ} {a : α}
    {outcome : Except Stop β} {xs ys : List Tick}
    (first : Fine ctx before covers s (.ok a : Except Stop α) t xs)
    (second : Fine ctx (before ++ covers) others t outcome u ys) :
    Fine ctx before (covers ++ others) s outcome u (xs ++ ys) := by
  have begun {zs : List Tick} {r : Place} (inside : r ∈ before ++ covers ∨ Begun zs r) :
      r ∈ before ∨ Begun (xs ++ zs) r := by
    rcases inside with inside | later
    · rcases List.mem_append.mp inside with known | new
      · exact .inl known
      · exact .inr (Begun.append.mpr (.inl (first.covered a rfl r new)))
    · exact .inr (Begun.append.mpr (.inr later))
  refine ⟨first.flows.append second.flows, fun x member => ?_, fun x member q nodes acts r inside => ?_,
    fun b done r inside => ?_, fun stop failed => ?_, second.waits⟩
  · rcases List.mem_append.mp member with early | later
    · exact first.starts x early
    · exact second.starts x later
  · rcases List.mem_append.mp member with early | later
    · have known := first.acts x early q nodes acts r inside
      exact known.imp_right fun here => Begun.append.mpr (.inl here)
    · exact begun (second.acts x later q nodes acts r inside)
  · rcases List.mem_append.mp inside with early | later
    · exact Begun.append.mpr (.inl (first.covered a rfl r early))
    · exact Begun.append.mpr (.inr (second.covered b done r later))
  · obtain ⟨zs, q, late, rfl, reason⟩ := second.stopped stop failed
    exact ⟨xs ++ zs, q, late, (List.append_assoc xs zs _).symm,
      reason.imp_right fun other => other.imp_right begun⟩

def Timely (ctx : Context σ) (before covers : List Place) {α : Type} (m : Timed σ α) : Prop :=
  ∀ s, Fine ctx before covers s (m s).1 (m s).2.1 (m s).2.2

theorem lateAborted {s : State σ} (pending : ctx.late s = true) : ctx.Aborted s := pending

theorem earlyRuns {s : State σ} (running : ctx.late s = false) : ¬ ctx.Aborted s :=
  Bool.eq_false_iff.mp running

namespace Timely

variable {before covers : List Place} {α β : Type}

theorem pure (a : α) : Timely ctx before [] (Pure.pure a : Timed σ α) := fun s =>
  ⟨(id : ctx.late s = true → ctx.late s = true), List.forall_mem_nil _, List.forall_mem_nil _,
    fun _ _ => List.forall_mem_nil _, fun _ => nofun, nofun⟩

theorem bind {others : List Place} {m : Timed σ α} {f : α → Timed σ β}
    (first : Timely ctx before covers m) (second : ∀ a, Timely ctx (before ++ covers) others (f a)) :
    Timely ctx before (covers ++ others) (m >>= f) := by
  intro s
  have fine := first s
  rcases run : m s with ⟨stop | a, t, xs⟩
  · rw [run] at fine
    rw [Timed.bindStopped run]
    exact fine.stop
  · rw [run] at fine
    rw [Timed.bindRan run]
    exact fine.append (second a t)

theorem weaken {before' covers' : List Place} {m : Timed σ α} (timely : Timely ctx before covers m)
    (known : ∀ r ∈ before, r ∈ before') (fewer : ∀ r ∈ covers', r ∈ covers) :
    Timely ctx before' covers' m := by
  intro s
  have fine := timely s
  exact { fine with
    acts := fun x member q nodes acts r inside =>
      (fine.acts x member q nodes acts r inside).imp_left (known r)
    covered := fun a done r inside => fine.covered a done r (fewer r inside)
    stopped := fun stop failed => by
      obtain ⟨xs, q, late, same, reason⟩ := fine.stopped stop failed
      exact ⟨xs, q, late, same, reason.imp_right fun other => other.imp_right (.imp_left (known q))⟩ }

theorem next {others : List Place} {m : Timed σ α} {f : α → Timed σ β}
    (first : Timely ctx before [] m) (second : ∀ a, Timely ctx before others (f a)) :
    Timely ctx before others (m >>= f) :=
  first.bind fun a => (second a).weaken (fun _ known => List.mem_append_left [] known) fun _ => id

theorem last {m : Timed σ α} {f : α → Timed σ β} (first : Timely ctx before covers m)
    (second : ∀ a, Timely ctx (before ++ covers) [] (f a)) : Timely ctx before covers (m >>= f) :=
  (first.bind second).weaken (fun _ => id) fun _ inside => List.mem_append_left [] inside

theorem check (p : Place) (location : Option Location) :
    Timely ctx before [] (Timed.part ctx p (Eval.checkAborted ctx location)) := by
  intro s
  unfold Timed.part
  cases pending : ctx.late s with
  | true =>
    rw [checkStops (lateAborted pending)]
    refine ⟨⟨fun _ => pending, fun _ => pending⟩, List.forall_mem_singleton.mpr nofun,
      List.forall_mem_singleton.mpr fun _ _ => nofun, fun _ => nofun, fun stop failed => ?_, nofun⟩
    cases failed
    exact ⟨[], p, ctx.late s, rfl, .inl ⟨location, rfl⟩⟩
  | false =>
    rw [checkPasses (earlyRuns pending)]
    exact pure () s

theorem enter {moments : List Moment} (start : ∀ m ∈ moments, m.Starts)
    (first : ∀ r ∈ covers, .begins r ∈ moments) (p : Place) (location : Option Location) :
    Timely ctx before covers (Timed.enter ctx p location moments) := by
  intro s
  cases pending : ctx.late s with
  | true =>
    have stopped : Timed.part ctx p (Eval.checkAborted ctx location) s =
        (.error (.fault ⟨.aborted, location⟩), s,
          [⟨.stops p (.fault ⟨.aborted, location⟩), ctx.late s⟩]) := by
      rw [Timed.part, checkStops (lateAborted pending)]
    have fine : Fine ctx before [] s _ _ _ := check p location s
    rw [stopped] at fine
    rw [Timed.enter, Timed.bindStopped stopped]
    exact fine.stop
  | false =>
    have passed : Timed.part ctx p (Eval.checkAborted ctx location) s = (.ok (), s, []) := by
      rw [Timed.part, checkPasses (earlyRuns pending)]
    rw [Timed.enter, Timed.bindRan passed, List.nil_append]
    refine ⟨.still moments _, fun x member _ => ?_, fun x member q nodes acts => ?_,
      fun _ _ r inside => ?_, fun _ => nofun, nofun⟩
    · obtain ⟨m, _, rfl⟩ := List.mem_map.mp member
      exact pending
    · obtain ⟨m, inside, rfl⟩ := List.mem_map.mp member
      cases acts
      exact (start _ inside).elim
    · exact ⟨_, List.mem_map_of_mem (first r inside), rfl⟩

theorem acts {p : Place} {nodes : List Place} (known : ∀ r ∈ nodes, r ∈ before) :
    Timely ctx before [] (Timed.note ctx [.acts p nodes]) := by
  intro s
  refine ⟨⟨id, id⟩, List.forall_mem_singleton.mpr (False.elim ·), List.forall_mem_singleton.mpr ?_,
    fun _ _ => List.forall_mem_nil _, fun _ => nofun, nofun⟩
  intro q others same r inside
  cases same
  exact .inl (known r inside)

theorem late {s t : State σ} (keeps : s.store.aborted = true → t.store.aborted = true)
    (pending : ctx.late s = true) : ctx.late t = true := by
  unfold Context.late at *
  rw [Bool.and_eq_true] at *
  exact pending.imp_right keeps

theorem partThere {p : Place} {m : Eval σ α} (steady : Steady ctx m)
    (known : ∀ s stop t, runFrom s m = (.error stop, t) → ctx.Throws stop ∨ p ∈ before) :
    Timely ctx before [] (Timed.part ctx p m) := by
  intro s
  obtain ⟨keeps, waits⟩ := steady s
  unfold Timed.part
  rcases ran : runFrom s m with ⟨stop | a, t⟩
  · rw [ran] at keeps waits
    refine ⟨⟨late keeps, id⟩, List.forall_mem_singleton.mpr (False.elim ·),
      List.forall_mem_singleton.mpr fun _ _ => nofun, fun _ => nofun, fun other failed => ?_,
      fun stalled => ?_⟩
    · cases failed
      exact ⟨[], p, ctx.late t, rfl, .inr ((known s stop t ran).imp_right .inl)⟩
    · cases stalled
      exact waits rfl
  · rw [ran] at keeps
    exact ⟨late keeps, List.forall_mem_nil _, List.forall_mem_nil _, fun _ _ => List.forall_mem_nil _,
      fun _ => nofun, nofun⟩

theorem part {p : Place} (known : p ∈ before) {m : Eval σ α} (steady : Steady ctx m) :
    Timely ctx before [] (Timed.part ctx p m) :=
  partThere steady fun _ _ _ _ => .inr known

theorem emit (signals : ctx.Signals) (p : Place) (kind : EventKind) (e : Event) :
    Timely ctx before [] (Timed.part ctx p (Eval.emit ctx kind e)) :=
  partThere (steady signals (.emit kind e) (Waits.emit kind e)) fun _ _ _ ran =>
    .inl (emitThrows ran)

theorem raise {p : Place} (known : p ∈ before) (cause : Cause) (location : Option Location) :
    Timely ctx before covers (Timed.part ctx p (Eval.raise cause location : Eval σ α)) := by
  intro s
  have fine : Fine ctx before [] s _ _ _ :=
    part known (fun _ => ⟨id, nofun⟩ : Steady ctx (Eval.raise cause location : Eval σ α)) s
  exact fine.stop

theorem function {p : Place} (known : p ∈ before) {name : Text} {location : Option Location}
    {f : Callable σ → Timed σ α}
    (found : ∀ g, ctx.functions.get? name = some g → Timely ctx before covers (f g)) :
    Timely ctx before covers (Timed.part ctx p (Eval.function ctx name location) >>= f) := by
  intro s
  cases there : ctx.functions.get? name with
  | some g =>
    have ran : Timed.part ctx p (Eval.function ctx name location) s = (.ok g, s, []) := by
      unfold Timed.part Eval.function
      rw [there]
      rfl
    rw [Timed.bindRan ran]
    exact found g there s
  | none =>
    have raised : Eval.function ctx name location =
        (Eval.raise (.undefinedFunction name) location : Eval σ (Callable σ)) := by
      unfold Eval.function
      rw [there]
    have ran : Timed.part ctx p (Eval.raise (.undefinedFunction name) location : Eval σ (Callable σ)) s =
        (.error (.fault ⟨.undefinedFunction name, location⟩), s,
          [⟨.stops p (.fault ⟨.undefinedFunction name, location⟩), ctx.late s⟩]) := rfl
    have missing : Timely ctx before covers (Timed.part ctx p
        (Eval.raise (.undefinedFunction name) location : Eval σ (Callable σ))) := raise known _ _
    have fine := missing s
    rw [ran] at fine
    rw [raised, Timed.bindStopped ran]
    exact fine.stop

theorem invoke (signals : ctx.Signals) {p : Place} (known : p ∈ before) {nodes : List Place}
    (begun : ∀ r ∈ nodes, r ∈ before) {f : Callable σ} {name : Text}
    (there : ctx.functions.get? name = some f) (args : List Value) (location : Option Location) :
    Timely ctx before [] (Timed.invoke ctx p nodes f name args location) := by
  have applied : Steady ctx (Eval.apply ctx f name args location) :=
    steady signals (.apply there args location) (Waits.closed.apply there args location)
  exact next (emit signals p _ _) fun _ => next (acts begun) fun _ => next (part known applied)
    fun v => next (emit signals p _ _) fun _ => pure v

theorem begins {p : Place} {more : List Moment} (start : ∀ m ∈ more, m.Starts)
    (location : Option Location) :
    Timely ctx before [p] (Timed.enter ctx p location (.begins p :: more)) := by
  have starts : (Moment.begins p).Starts := trivial
  exact enter (List.forall_mem_cons.mpr ⟨starts, start⟩)
    (List.forall_mem_singleton.mpr List.mem_cons_self) p location

theorem begunWith {p : Place} {known others : List Place} :
    ∀ r ∈ p :: others, r ∈ known ++ [p] ++ others := by
  intro r inside
  rw [List.append_assoc]
  exact List.mem_append_right known inside

mutual

theorem expr (signals : ctx.Signals) (before : List Place) (p : Place) (e : Expr) :
    Timely ctx before (e.places p) (Timed.expr ctx p e) := by
  have new {known : List Place} : p ∈ known ++ [p] := List.mem_append_right known List.mem_cons_self
  have none : ∀ m ∈ ([] : List Moment), m.Starts := List.forall_mem_nil _
  match e with
  | .literal v span => exact bind (begins none _) fun _ => pure _
  | .sequence kind elements span =>
    have made (items : List Value) : Steady ctx (Eval.allocSequence ctx kind items) :=
      steady signals (.allocSequence kind items) (Waits.closed.allocSequence kind items)
    exact bind (begins none _) fun _ => last (slots signals new _ 0 elements) fun items =>
      next (acts begunWith) fun _ => part (List.mem_append_left _ new) (made items)
  | .name n span =>
    have read : Steady ctx (Eval.lookup n span.location?) :=
      steady signals (.lookup n _) (Waits.closed.lookup n _)
    have starts : (Moment.reads p).Starts := trivial
    exact last (begins (List.forall_mem_singleton.mpr starts) _) fun _ => part new read
  | .call callee args span =>
    exact bind (begins none _) fun _ => function new fun g there => last (exprs signals _ p 0 args)
      fun vs => invoke signals (List.mem_append_left _ new) begunWith there vs _
  | .subscript object index span =>
    have selected (o i : Value) : Steady ctx
        (do Eval.ofFault (Eval.elementAt (← Eval.heap) o i span.location?) : Eval σ Value) :=
      steady signals (.heap fun h => .ofFault _)
        (Waits.closed.bind Waits.closed.heap fun h => Waits.closed.ofFault _)
    refine bind (begins none _) fun _ => bind (expr signals _ _ object) fun o =>
      last (expr signals _ _ index) fun i => next (acts ?_) fun _ => part ?_ (selected o i)
    · rw [List.append_assoc (before ++ [p])]
      exact begunWith
    · rw [List.append_assoc (before ++ [p])]
      exact List.mem_append_left _ new
  | .unary op operand span =>
    have applied (v : Value) : Steady ctx (Eval.applyUnary op v span.location?) :=
      steady signals (.applyUnary op v _) (Waits.closed.applyUnary op v _)
    exact bind (begins none _) fun _ => last (expr signals _ _ operand) fun v =>
      next (acts begunWith) fun _ => part (List.mem_append_left _ new) (applied v)

theorem slots (signals : ctx.Signals) {before : List Place} {p : Place} (known : p ∈ before)
    (literal : Expr) (i : Nat) (elements : List (Option Expr)) :
    Timely ctx before (Expr.slotPlaces p i elements) (Timed.slots ctx p literal i elements) := by
  have taken (location : Option Location) :
      Timely ctx before [] (Timed.enter ctx p location [.takesUp (p ++ [i])]) := by
    have starts : (Moment.takesUp (p ++ [i])).Starts := trivial
    exact enter (List.forall_mem_singleton.mpr starts) (List.forall_mem_nil _) p location
  match elements with
  | [] => exact pure _
  | none :: rest => exact next (taken _) fun _ => raise known _ _
  | some e :: rest =>
    exact next (taken _) fun _ => bind (expr signals before _ e) fun v =>
      last (slots signals (List.mem_append_left _ known) literal (i + 1) rest) fun vs => pure _

theorem exprs (signals : ctx.Signals) (before : List Place) (p : Place) (i : Nat) (es : List Expr) :
    Timely ctx before (Expr.argPlaces p i es) (Timed.exprs ctx p i es) := by
  match es with
  | [] => exact pure _
  | e :: rest =>
    exact bind (expr signals before _ e) fun v => last (exprs signals _ p (i + 1) rest) fun vs => pure _

end

theorem statement (signals : ctx.Signals) (before : List Place) (i : Nat) (s : Statement) :
    Timely ctx before (s.places i) (Timed.statement ctx i s) := by
  have none : ∀ m ∈ ([] : List Moment), m.Starts := List.forall_mem_nil _
  refine bind (begins none _) fun _ => ?_
  cases s with
  | expression e span => exact expr signals _ _ e
  | assignment target value span =>
    have binds (v : Value) : Steady ctx (Eval.bind target v : Eval σ Unit) := fun _ => ⟨id, nofun⟩
    have new : [i] ∈ before ++ [[i]] := List.mem_append_right before List.mem_cons_self
    exact last (expr signals _ _ value) fun v => next (acts begunWith) fun _ =>
      next (part (List.mem_append_left _ new) (binds v)) fun _ => pure v

theorem turn (signals : ctx.Signals) (before : List Place) (i total : Nat) (s : Statement) :
    Timely ctx before (s.places i) (Timed.turn ctx i total s) :=
  next (check [i] _) fun _ => next (emit signals [i] _ _) fun _ =>
    last (statement signals before i s) fun v => next (emit signals [i] _ _) fun _ => pure v

theorem turns (signals : ctx.Signals) (before : List Place) (i total : Nat) (ss : List Statement) :
    Timely ctx before (Script.placesFrom i ss) (Timed.turns ctx i total ss) := by
  induction ss generalizing before i with
  | nil => exact pure ()
  | cons s rest ih => exact bind (turn signals before i total s) fun _ => ih _ (i + 1)

end Timely

end SeqScript
