import SeqScript.Proofs.Run.Refusals
import SeqScript.Proofs.Run.Results
import SeqScript.Proofs.Run.Stages

/-! Why runs stop. Every stop of a run comes from outside, or from one node that the run has come
to: it is then a fault at that node's own location. -/
namespace SeqScript
open Relation (ReflTransGen)
open Stepper (runFrom)

variable {σ : Type}

def Context.Gives (ctx : Context σ) (stop : Stop) : Prop :=
  (∃ kind listener e s, ctx.listener kind = some listener ∧ (listener e s).1 = some stop) ∨
    ∃ name f call s, ctx.functions.get? name = some (.host f) ∧
      ((f call s).1 = .raised stop ∨ (f call s).1 = .later (.rejects stop))

def Context.Throws (ctx : Context σ) (stop : Stop) : Prop :=
  ∃ kind listener e s, ctx.listener kind = some listener ∧ (listener e s).1 = some stop

theorem Context.Throws.gives {ctx : Context σ} {stop : Stop} (throws : ctx.Throws stop) :
    ctx.Gives stop := .inl throws

inductive Reason (ctx : Context σ) (args : List Value) (location : Option Location) :
    Stop → State σ → Prop where
  | given {stop t} (gives : ctx.Gives stop) : Reason ctx args location stop t
  | mistyped {f t} (typed : f.Mistyped location) : Reason ctx args location (.fault f) t
  | frozen {r t} (changed : Eval.first args = .object r)
      (frozen : t.store.heap.isFrozenList r = true) :
      Reason ctx args location (.fault ⟨.frozenList, location⟩) t
  | aborted {t} (aborted : ctx.Aborted t) : Reason ctx args location (.fault ⟨.aborted, location⟩) t
  | timedOut {name f ms t} (host : ctx.functions.get? name = some (.host f))
      (limit : ctx.timeout = some ms) :
      Reason ctx args location (.fault ⟨.timedOut name ms, location⟩) t
  | stalled {name f t} (host : ctx.functions.get? name = some (.host f))
      (limit : ctx.timeout = none) : Reason ctx args location .stalled t

def Reasoned (ctx : Context σ) (args : List Value) (location : Option Location) {α : Type}
    (m : Eval σ α) : Prop :=
  ∀ s, Ensures s m (fun _ _ => True) (Reason ctx args location)

namespace Reasoned
open Eval

variable {ctx : Context σ} {args : List Value} {location : Option Location} {α β : Type}

theorem pure (a : α) : Reasoned ctx args location (pure a : Eval σ α) := fun _ => ensuresPure trivial

theorem throw {stop : Stop} (reason : ∀ t, Reason ctx args location stop t) :
    Reasoned ctx args location (throw stop : Eval σ α) := fun t => ensuresThrow (reason t)

theorem bind {m : Eval σ α} {f : α → Eval σ β} (first : Reasoned ctx args location m)
    (second : ∀ a, Reasoned ctx args location (f a)) : Reasoned ctx args location (m >>= f) :=
  fun s => (first s).bind fun a t _ => second a t

theorem heap {f : Heap → Eval σ α} (rest : ∀ h, Reasoned ctx args location (f h)) :
    Reasoned ctx args location (Eval.heap >>= f) := fun s => ensuresHeap (rest s.store.heap s)

theorem ofFault {result : Except Fault α} (refuses : Refuses result (Fault.Mistyped location)) :
    Reasoned ctx args location (ofFault result : Eval σ α) := fun _ =>
  ensuresFault (fun _ _ => trivial) fun f refused => .mistyped (refuses f refused)

theorem checkAborted : Reasoned ctx args location (checkAborted ctx location) :=
  fun _ => ensuresChecked (fun _ => trivial) fun aborted => .aborted aborted

theorem emit (kind : EventKind) (e : Event) : Reasoned ctx args location (emit ctx kind e) :=
  fun _ => ensuresEmit (fun _ => trivial) (fun _ _ _ => trivial)
    fun listener _ there stops => .given (.inl ⟨kind, listener, e, _, there, stops⟩)

theorem log (v : Value) : Reasoned ctx args location (log ctx v) := by
  unfold Eval.log
  split
  · exact heap fun h s => ensuresRecord trivial
  · exact emit _ _

theorem logAll (vs : List Value) : Reasoned ctx args location (logAll ctx vs) := by
  induction vs with
  | nil => exact pure ()
  | cons v vs ih => exact bind (log v) fun _ => ih

theorem alloc (o : Object) : Reasoned ctx args location (alloc o : Eval σ Value) :=
  fun _ => ensuresAlloc trivial

theorem changing {f : Heap → Except Fault Heap}
    (refuses : ∀ h, Refuses (f h) fun f => f.Mistyped location ∨ Eval.Frozen h args location f) :
    Reasoned ctx args location
      (do setHeap (← Eval.ofFault (f (← Eval.heap))); return Value.none : Eval σ Value) := by
  intro s
  refine ensuresHeap (Ensures.bind (ensuresFault (p := fun _ _ => True) (fun _ _ => trivial) ?_)
    fun h t _ => ensuresSetHeap (ensuresPure trivial))
  intro fault refused
  rcases refuses _ fault refused with typed | ⟨r, changed, frozen, rfl⟩
  · exact .mistyped typed
  · exact .frozen changed frozen

theorem applyBuiltin (b : Builtin) : Reasoned ctx args location (applyBuiltin ctx b args location) := by
  cases b with
  | len => exact heap fun h => ofFault lengthOfRefuses
  | append => exact changing fun h => appendToRefuses
  | extend => exact changing fun h => extendWithRefuses
  | list => exact heap fun h => bind (ofFault convertedElementsRefuses) fun _ => alloc _
  | tuple =>
    refine heap fun h => bind (ofFault convertedElementsRefuses) fun _ => heap fun h => ?_
    split
    · exact pure _
    · exact alloc _
  | print => exact bind (logAll args) fun _ => pure _

theorem await {name : Text} {f : HostFunction σ} {l : Later}
    (host : ctx.functions.get? name = some (.host f))
    (rejected : ∀ stop, l = .rejects stop → ctx.Gives stop) :
    Reasoned ctx args location (await ctx name location l) := by
  refine bind checkAborted fun _ => ?_
  cases l with
  | resolves v => exact pure v
  | rejects stop => exact throw fun _ => .given (rejected stop rfl)
  | hangs =>
    dsimp only
    split
    · rename_i limit
      exact throw fun _ => .timedOut host limit
    · rename_i limit
      exact throw fun _ => .stalled host limit
  | aborts =>
    intro s
    refine ensuresStore (ensuresSetStore (bind checkAborted (fun _ => ?_) _))
    split
    · rename_i limit
      exact throw fun _ => .timedOut host limit
    · rename_i limit
      exact throw fun _ => .stalled host limit

theorem applyHost {f : HostFunction σ} {name : Text} (there : ctx.functions.get? name = some (.host f)) :
    Reasoned ctx args location (applyHost ctx f name args location) := by
  intro s
  have given (stop : Stop) (answer : (f ⟨args, location, ctx.domain⟩ s.store).1 = .raised stop ∨
      (f ⟨args, location, ctx.domain⟩ s.store).1 = .later (.rejects stop)) : ctx.Gives stop :=
    .inr ⟨name, f, _, s.store, there, answer⟩
  refine ensuresStore (ensuresSetStore ?_)
  split
  · exact pure _ _
  · rename_i stop answer
    exact throw (fun _ => .given (given stop (.inl answer))) _
  · rename_i l answer
    exact await there (fun stop same => given stop (.inr (same ▸ answer))) _

theorem invoke {f : Callable σ} {name : Text} (there : ctx.functions.get? name = some f) :
    Reasoned ctx args location (invoke ctx f name args location) := by
  refine bind (emit _ _) fun _ => bind ?_ fun v => bind (emit _ _) fun _ => pure v
  cases f with
  | builtin b => exact applyBuiltin b
  | host f => exact applyHost there

end Reasoned

inductive Fails (ctx : Context σ) : Expr → State σ → Stop → State σ → Prop where
  | aborted {d t u} (aborted : ctx.Aborted u) :
      Fails ctx d t (.fault ⟨.aborted, d.span.location?⟩) u
  | unbound {n span t} (runs : ¬ ctx.Aborted t) (missing : t.store.bindings.get? n = none) :
      Fails ctx (.name n span) t (.fault ⟨.undefinedVariable n, span.location?⟩) t
  | noFunction {callee args span t} (runs : ¬ ctx.Aborted t)
      (missing : ctx.functions.get? callee = none) :
      Fails ctx (.call callee args span) t (.fault ⟨.undefinedFunction callee, span.location?⟩) t
  | call {callee args span t vs w stop u} (valued : runFrom t (Eval.exprs ctx args) = (.ok vs, w))
      (leads : Leads ctx w u) (reason : Reason ctx vs span.location? stop u) :
      Fails ctx (.call callee args span) t stop u
  | hole {kind elements span t i u} (empty : elements[i]? = some none) :
      Fails ctx (.sequence kind elements span) t
        (.fault ⟨.missingElement ((Expr.sequence kind elements span).summary ctx.limits) i,
          span.location?⟩) u
  | subscript {object index span t o i f u}
      (refused : Eval.elementAt u.store.heap o i span.location? = .error f) :
      Fails ctx (.subscript object index span) t (.fault f) u
  | operand {op operand span t type u} :
      Fails ctx (.unary op operand span) t (.fault ⟨.operandType type, span.location?⟩) u

def Blamed (ctx : Context σ) (p : Part) (s : State σ) (stop : Stop) (u : State σ) : Prop :=
  ∃ d t, Begins ctx p s d t ∧ Fails ctx d t stop u

inductive LiteralFails (ctx : Context σ) (literal : Expr) (index : Nat)
    (elements : List (Option Expr)) : Stop → State σ → Prop where
  | aborted {u} (aborted : ctx.Aborted u) :
      LiteralFails ctx literal index elements (.fault ⟨.aborted, literal.span.location?⟩) u
  | hole {i u} (empty : elements[i]? = some none) :
      LiteralFails ctx literal index elements
        (.fault ⟨.missingElement (literal.summary ctx.limits) (index + i), literal.span.location?⟩) u

variable {ctx : Context σ}

theorem Blamed.within {p q : Part} {s s' : State σ} {stop : Stop} {u : State σ}
    (blamed : Blamed ctx p s stop u) (outer : ∀ d t, Begins ctx p s d t → Begins ctx q s' d t) :
    Blamed ctx q s' stop u := by
  obtain ⟨d, t, begins, fails⟩ := blamed
  exact ⟨d, t, outer d t begins, fails⟩

theorem Fails.blamed {e : Expr} {s : State σ} {stop : Stop} {u : State σ}
    (fails : Fails ctx e s stop u) : Blamed ctx (.expr e) s stop u := ⟨e, s, .here e s, fails⟩

theorem LiteralFails.later {literal : Expr} {index : Nat} {slot : Option Expr}
    {rest : List (Option Expr)} {stop : Stop} {u : State σ}
    (fails : LiteralFails ctx literal (index + 1) rest stop u) :
    LiteralFails ctx literal index (slot :: rest) stop u := by
  cases fails with
  | aborted aborted => exact .aborted aborted
  | @hole i u empty =>
    have place : index + 1 + i = index + (i + 1) := by omega
    rw [place]
    exact .hole (by simpa using empty)

theorem LiteralFails.fails {kind : SequenceKind} {elements : List (Option Expr)} {span : Span}
    {s : State σ} {stop : Stop} {u : State σ}
    (fails : LiteralFails ctx (.sequence kind elements span) 0 elements stop u) :
    Fails ctx (.sequence kind elements span) s stop u := by
  cases fails with
  | aborted aborted => exact .aborted aborted
  | @hole i u empty =>
    rw [Nat.zero_add]
    exact .hole empty

namespace Eval

/- Every expression begins with a look at the abort, which the expression itself answers for. -/
theorem ensuresBegun {α : Type} (e : Expr) {s : State σ} {f : Unit → Eval σ α}
    (rest : ¬ ctx.Aborted s → Ensures s (f ()) (fun _ _ => True) (Blamed ctx (.expr e) s)) :
    Ensures s (checkAborted ctx e.span.location? >>= f) (fun _ _ => True) (Blamed ctx (.expr e) s) := by
  refine (ensuresChecked (p := fun _ t => t = s ∧ ¬ ctx.Aborted s) (fun runs => ⟨rfl, runs⟩)
    fun aborted => Fails.blamed (.aborted aborted)).bind ?_
  rintro _ _ ⟨rfl, runs⟩
  exact rest runs

mutual

theorem exprBlamed (e : Expr) (s : State σ) :
    Ensures s (expr ctx e) (fun _ _ => True) (Blamed ctx (.expr e) s) := by
  match e with
  | .literal v span => exact ensuresBegun (.literal v span) fun _ => ensuresPure trivial
  | .sequence kind elements span =>
    refine ensuresBegun (.sequence kind elements span) fun runs => ?_
    refine ((slotsBlamed (.sequence kind elements span) 0 elements s).weaken (fun _ _ _ => trivial)
      ?_).bind fun items t _ => ?_
    · rintro stop u (blamed | fails)
      · exact blamed.within fun d t inside => .element runs inside
      · exact fails.fails.blamed
    · cases kind with
      | list => exact ensuresAlloc trivial
      | tuple => exact ensuresAlloc trivial
  | .name n span =>
    refine ensuresBegun (.name n span) fun runs => ensuresStore ?_
    split
    · exact ensuresPure trivial
    · rename_i missing
      exact ensuresRaise (Fails.blamed (.unbound runs missing))
  | .call callee args span =>
    refine ensuresBegun (.call callee args span) fun runs => ensuresFunction (fun f there => ?_)
      fun missing => Fails.blamed (.noFunction runs missing)
    refine ((exprsBlamed args s).weaken (fun _ _ _ => trivial) fun stop u blamed =>
      blamed.within fun d t inside => .argument runs there inside).bindRan fun vs w valued => ?_
    exact ((Reasoned.invoke there w).and (Leading.invoke there vs span.location? w)).weaken
      (fun _ _ _ => trivial) fun stop u why => Fails.blamed (.call valued why.2 why.1)
  | .subscript object index span =>
    refine ensuresBegun (.subscript object index span) fun runs => ?_
    refine ((exprBlamed object s).weaken (fun _ _ _ => trivial) fun stop u blamed =>
      blamed.within fun d t inside => .object runs inside).bindRan fun o t before => ?_
    refine ((exprBlamed index t).weaken (fun _ _ _ => trivial) fun stop u blamed =>
      blamed.within fun d t inside => .index runs before inside).bind fun i u _ => ?_
    exact ensuresHeap (ensuresFault (fun _ _ => trivial) fun f refused =>
      Fails.blamed (.subscript refused))
  | .unary op operand span =>
    refine ensuresBegun (.unary op operand span) fun runs => ?_
    refine ((exprBlamed operand s).weaken (fun _ _ _ => trivial) fun stop u blamed =>
      blamed.within fun d t inside => .operand runs inside).bind fun v t _ => ?_
    cases op with
    | not => exact ensuresHeap (ensuresPure trivial)
    | negate =>
      simp only [applyUnary]
      split
      · exact ensuresPure trivial
      · exact ensuresHeap (ensuresRaise (Fails.blamed .operand))

theorem slotsBlamed (literal : Expr) (index : Nat) (elements : List (Option Expr)) (s : State σ) :
    Ensures s (slots ctx literal index elements) (fun _ _ => True)
      fun stop u => Blamed ctx (.slots literal index elements) s stop u ∨
        LiteralFails ctx literal index elements stop u := by
  match elements with
  | [] => exact ensuresPure trivial
  | none :: rest =>
    refine (ensuresChecked (p := fun _ _ => True) (fun _ => trivial)
      fun aborted => .inr (.aborted aborted)).bind fun _ t _ => ensuresRaise (.inr ?_)
    exact LiteralFails.hole (i := 0) rfl
  | some e :: rest =>
    refine (ensuresChecked (p := fun _ t => t = s ∧ ¬ ctx.Aborted s) (fun runs => ⟨rfl, runs⟩)
      fun aborted => .inr (.aborted aborted)).bind ?_
    rintro _ _ ⟨rfl, runs⟩
    refine ((exprBlamed e _).weaken (fun _ _ _ => trivial) fun stop u blamed =>
      .inl (blamed.within fun d t inside => .firstSlot runs inside)).bindRan fun v t before => ?_
    refine ((slotsBlamed literal (index + 1) rest t).weaken (fun _ _ _ => trivial) ?_).bind
      fun vs u _ => ensuresPure trivial
    rintro stop u (blamed | fails)
    · exact .inl (blamed.within fun d t inside => .laterSlot runs before inside)
    · exact .inr fails.later

theorem exprsBlamed (es : List Expr) (s : State σ) :
    Ensures s (exprs ctx es) (fun _ _ => True) (Blamed ctx (.exprs es) s) := by
  match es with
  | [] => exact ensuresPure trivial
  | e :: rest =>
    refine ((exprBlamed e s).weaken (fun _ _ _ => trivial) fun stop u blamed =>
      blamed.within fun d t inside => .firstArg inside).bindRan fun v t before => ?_
    exact ((exprsBlamed rest t).weaken (fun _ _ _ => trivial) fun stop u blamed =>
      blamed.within fun d t inside => .laterArg before inside).bind fun vs u _ => ensuresPure trivial

end

theorem statementBlamed (statement : Statement) (s : State σ) :
    Ensures s (Eval.statement ctx statement) (fun _ _ => True) fun stop u =>
      ctx.Aborted s ∧ stop = .fault ⟨.aborted, statement.span.location?⟩ ∨
        ¬ ctx.Aborted s ∧ Blamed ctx (.expr statement.expr) s stop u := by
  refine (ensuresChecked (p := fun _ t => t = s ∧ ¬ ctx.Aborted s) (fun runs => ⟨rfl, runs⟩)
    fun aborted => .inl ⟨aborted, rfl⟩).bind ?_
  rintro _ _ ⟨rfl, runs⟩
  cases statement with
  | expression e span =>
    exact (exprBlamed e _).weaken (fun _ _ _ => trivial) fun _ _ blamed => .inr ⟨runs, blamed⟩
  | assignment target value span =>
    exact ((exprBlamed value _).weaken (fun _ _ _ => trivial)
      fun _ _ blamed => .inr ⟨runs, blamed⟩).bind fun _ _ _ => trivial

end Eval

theorem Fails.given {d : Expr} {t u : State σ} {stop : Stop} (fails : Fails ctx d t stop u)
    (raised : ∀ f, stop ≠ .fault f) (ends : stop ≠ .stalled) : ctx.Gives stop := by
  cases fails with
  | call valued leads reason =>
    cases reason with
    | given gives => exact gives
    | stalled => exact absurd rfl ends
    | mistyped | frozen | aborted | timedOut => exact absurd rfl (raised _)
  | aborted | unbound | noFunction | hole | subscript | operand => exact absurd rfl (raised _)

theorem Eval.statementUnread {statement : Statement} {s u : State σ} {instead : Stop}
    (stopped : runFrom s (Eval.statement ctx statement) = (.error (.unreadable instead), u)) :
    ctx.Gives (.unreadable instead) := by
  rcases (statementBlamed statement s).onStopped stopped with ⟨_, same⟩ | ⟨_, d, t, _, fails⟩
  · cases same
  · exact fails.given (fun f same => by cases same) nofun

inductive RunFails (ctx : Context σ) (script : Script) (start : State σ) : Stop → Prop where
  | given {stop} (gives : ctx.Gives stop) : RunFails ctx script start stop
  | unread {instead} (gives : ctx.Gives (.unreadable instead)) : RunFails ctx script start instead
  | aborted {statement u} (member : statement ∈ script.statements) (aborted : ctx.Aborted u) :
      RunFails ctx script start (.fault ⟨.aborted, statement.span.location?⟩)
  | node {i d t stop u} (begins : RunBegins ctx script start i d t) (fails : Fails ctx d t stop u) :
      RunFails ctx script start stop

theorem emitThrows {kind : EventKind} {e : Event} {s u : State σ} {stop : Stop}
    (run : runFrom s (Eval.emit ctx kind e) = (.error stop, u)) : ctx.Throws stop := by
  have thrown : Ensures s (Eval.emit ctx kind e) (fun _ _ => True) fun stop _ => ctx.Throws stop :=
    Eval.ensuresEmit (fun _ => trivial) (fun _ _ _ => trivial)
      fun listener _ there stops => ⟨kind, listener, e, _, there, stops⟩
  exact thrown.onStopped run

theorem emitGiven {kind : EventKind} {e : Event} {s u : State σ} {stop : Stop}
    (run : runFrom s (Eval.emit ctx kind e) = (.error stop, u)) : ctx.Gives stop :=
  (emitThrows run).gives

namespace Stepper

theorem failReason {st st' : Stepper} {stop other : Stop} {s s' : State σ}
    (run : fail ctx st stop s = (.error other, st', s')) :
    other = stop ∨ ctx.Gives other ∨ stop = .unreadable other := by
  unfold fail at run
  split at run
  · cases run
    exact .inl rfl
  · split at run <;> rename_i told <;> cases run
    · exact .inl rfl
    · cases tells ctx st.index stop with
      | event _ tells =>
        rw [tells] at told
        exact .inr (.inl (emitGiven told))
      | unread _ tells =>
        rw [tells] at told
        cases told
        exact .inr (.inr rfl)

theorem stepBlamed {script : Script} {start s s' : State σ} {st st' : Stepper} {stop : Stop}
    (stage : Stage ctx script start st s)
    (run : step ctx st s = (.error stop, st', s')) : RunFails ctx script start stop := by
  have done := stage.position.2
  cases remaining : st.remaining with
  | nil =>
    rw [remaining] at done
    unfold step at run
    rw [remaining, done] at run
    cases run
  | cons statement rest =>
    rw [remaining] at done
    have member : statement ∈ script.statements := List.mem_of_getElem? (stage.here remaining)
    have ran : StepRun ctx st statement rest s (step ctx st s) := stepRuns done remaining s
    rw [run] at ran
    cases ran with
    | aborted pending => exact .aborted member pending
    | unstarted _ started => exact .given (emitGiven started)
    | @stopped begun reason ended _ running started stopped fails =>
      rcases failReason fails with rfl | gives | rfl
      · rcases (Eval.statementBlamed statement begun).onStopped stopped with
          ⟨aborted, rfl⟩ | ⟨goesOn, d, t, begins, fails⟩
        · exact .aborted member aborted
        · have statementBegins : StatementBegins ctx script start st.index statement begun :=
            ⟨st, s, rest, stage, done, remaining, rfl, running, started, goesOn⟩
          exact .node ⟨statement, begun, statementBegins, begins⟩ fails
      · exact .given gives
      · exact .unread (Eval.statementUnread stopped)
    | unended _ _ _ told fails =>
      rcases failReason fails with rfl | gives | rfl
      · exact .given (emitGiven told)
      · exact .given gives
      · exact .unread (emitGiven told)

theorem stepAllBlamed {script : Script} {start s s' : State σ} {st st' : Stepper} {stop : Stop}
    {n : Nat} (stage : Stage ctx script start st s)
    (run : stepAll ctx n st s = (.error stop, st', s')) : RunFails ctx script start stop := by
  induction n generalizing st s with
  | zero => cases run
  | succ n ih =>
    unfold stepAll at run
    split at run
    · cases run
    · rename_i going
      split at run <;> rename_i stepped
      · cases run
        exact stepBlamed stage stepped
      · exact ih (.next stage (Bool.eq_false_iff.mpr going) stepped) run

end Stepper

theorem Run.executeBlamed {script : Script} {start s : State σ} {stop : Stop}
    (run : execute ctx script start = (.error stop, s)) :
    RunFails ctx script start stop ∨ ∃ kind name, stop = RunResult.refused kind name ∧
      Bindings.Blocks s.store.heap s.store.bindings kind name := by
  unfold execute at run
  dsimp only at run
  split at run
  · rename_i ran
    cases run
    exact .inl (Stepper.stepAllBlamed .first ran)
  · rename_i ran
    cases run
    exact .inl (Stepper.stepAllBlamed .first ran)
  · rename_i st t ran
    obtain ⟨failed, rfl⟩ := Prod.mk.inj run
    obtain ⟨kind, name, same, blocks⟩ := RunResult.collectBlocked failed
    exact .inr ⟨kind, name, same, blocks⟩

end SeqScript
