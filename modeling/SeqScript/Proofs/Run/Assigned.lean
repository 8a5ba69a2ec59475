import SeqScript.Proofs.Bindings
import SeqScript.Proofs.Names
import SeqScript.Proofs.Run.NamesFound
import SeqScript.Proofs.Run.SteppedOut

/-! What a run has bound. A statement binds its target as the last thing it does. So where neither
hosts nor listeners bind a variable, the variables are at any time the first ones, overwritten by the
statements that have completed. A statement that stops has no part in them, however much of it was
evaluated. -/
namespace SeqScript
open Stepper (runFrom)

variable {σ : Type}

namespace Statement

variable {statement : Statement} {v : Value} {b : Bindings Value} {n : Text}

def assign (statement : Statement) (v : Value) (b : Bindings Value) : Bindings Value :=
  match statement.target? with
  | some name => b.set name v
  | none => b

theorem memAssign : n ∈ (statement.assign v b).names ↔ n ∈ b.names ∨ statement.target? = some n := by
  unfold assign
  cases statement.target? with
  | none => simp
  | some name =>
    rw [Bindings.memNamesSet, Option.some.injEq]
    exact or_congr_right eq_comm

theorem getAssign :
    (statement.assign v b).get? n = if statement.target? = some n then some v else b.get? n := by
  unfold assign
  cases statement.target? with
  | none => rfl
  | some name => simp only [Bindings.getSet, Option.some.injEq]

theorem distinctAssign (distinct : b.names.Nodup) : (statement.assign v b).names.Nodup := by
  unfold assign
  cases statement.target? with
  | none => exact distinct
  | some name => exact Bindings.distinctSet distinct

end Statement

abbrev Past := List (Statement × Value)

namespace Past

def assigned (past : Past) (b : Bindings Value) : Bindings Value :=
  past.foldl (fun b p => p.1.assign p.2 b) b

def lastValue (past : Past) : Value := (past.getLast?.map Prod.snd).getD .none

def value? (name : Text) (past : Past) : Option Value :=
  (past.reverse.find? fun p => p.1.target? = some name).map Prod.snd

variable {past : Past} {b : Bindings Value} {n : Text}

theorem assignedNext (past : Past) (b : Bindings Value) (p : Statement × Value) :
    assigned (past ++ [p]) b = p.1.assign p.2 (past.assigned b) := List.foldl_append

theorem lastNext (past : Past) (p : Statement × Value) : lastValue (past ++ [p]) = p.2 := by
  simp [lastValue]

theorem distinctAssigned (distinct : b.names.Nodup) : (past.assigned b).names.Nodup := by
  induction past generalizing b with
  | nil => exact distinct
  | cons p rest ih => exact ih (Statement.distinctAssign (v := p.2) distinct)

theorem memAssigned :
    n ∈ (past.assigned b).names ↔ n ∈ b.names ∨ ∃ p ∈ past, p.1.target? = some n := by
  induction past generalizing b with
  | nil => simp [assigned]
  | cons p rest ih =>
    have first : n ∈ (assigned (p :: rest) b).names ↔ _ := ih (b := p.1.assign p.2 b)
    simp only [first, Statement.memAssign, List.mem_cons, exists_eq_or_imp, or_assoc]

theorem getAssigned : (past.assigned b).get? n = (past.value? n).or (b.get? n) := by
  induction past generalizing b with
  | nil => rfl
  | cons p rest ih =>
    have first : (assigned (p :: rest) b).get? n = _ := ih (b := p.1.assign p.2 b)
    rw [first, Statement.getAssign, value?, value?, List.reverse_cons, List.find?_append]
    by_cases same : p.1.target? = some n <;> cases rest.reverse.find? _ <;> simp [same]

end Past

structure Context.BindsNothing (ctx : Context σ) : Prop where
  host : ∀ name f call (s : Store σ), ctx.functions.get? name = some (.host f) →
    (f call s).2.bindings = s.bindings
  listener : ∀ kind listener e (s : Store σ), ctx.listener kind = some listener →
    (listener e s).2.bindings = s.bindings

def Context.LetsEnd (ctx : Context σ) : Prop :=
  ∀ listener e s, ctx.listener .stepEnd = some listener → (listener e s).1 = none

inductive Stepper.Completes (ctx : Context σ) (st : Stepper) (s : State σ) : Past → Prop where
  | one {statement rest begun v ended} (going : st.done = false)
      (left : st.remaining = statement :: rest) (running : ¬ ctx.Aborted s)
      (started : runFrom s (Eval.emit ctx .stepStart (.stepStart st.index st.total)) = (.ok (), begun))
      (valued : runFrom begun (Eval.statement ctx statement) = (.ok v, ended)) :
      Completes ctx st s [(statement, v)]
  | none (stops : ∀ statement rest begun v ended, st.done = false → st.remaining = statement :: rest →
      ¬ ctx.Aborted s →
      runFrom s (Eval.emit ctx .stepStart (.stepStart st.index st.total)) = (.ok (), begun) →
      runFrom begun (Eval.statement ctx statement) ≠ (.ok v, ended)) : Completes ctx st s []

/-- Where a stepper can be that a host calls over and over, whatever the answers are, and what has
completed by then. Between two calls the host acts on the store as it may. -/
inductive Stepping (ctx : Context σ) (mayAct : Store σ → Store σ → Prop) (script : Script)
    (start : State σ) : Past → Stepper → State σ → Prop where
  | first : Stepping ctx mayAct script start [] (.ofScript script) start
  | acted {past st s} (stepping : Stepping ctx mayAct script start past st s)
      (act : Store σ → Store σ) (allowed : mayAct s.store (act s.store)) :
      Stepping ctx mayAct script start past st (s.acted act)
  | stepped {past st s now answer st' s'} (stepping : Stepping ctx mayAct script start past st s)
      (completes : st.Completes ctx s now)
      (step : Stepper.step ctx st s = (answer, st', s')) (ends : answer ≠ .error .stalled) :
      Stepping ctx mayAct script start (past ++ now) st' s'

def Store.SameBindings (s t : Store σ) : Prop := t.bindings = s.bindings

variable {ctx : Context σ}

theorem Leads.bindings (still : ctx.BindsNothing) {s t : State σ} (leads : Leads ctx s t) :
    t.store.bindings = s.store.bindings := by
  have keeps : ctx.KeepsBindings (· = s.store.bindings) :=
    ⟨fun _ _ _ _ there before => (still.host _ _ _ _ there).trans before,
      fun _ _ _ _ there before => (still.listener _ _ _ _ there).trans before⟩
  exact leads.keepsBindings keeps rfl

theorem statementAssigns (still : ctx.BindsNothing) (statement : Statement) (s : State σ) :
    Ensures s (Eval.statement ctx statement)
      (fun v t => t.store.bindings = statement.assign v s.store.bindings)
      fun _ t => t.store.bindings = s.store.bindings := by
  have same {α : Type} {m : Eval σ α} (leading : Leading ctx m) {t : State σ}
      (before : t.store.bindings = s.store.bindings) :
      Ensures t m (fun _ u => u.store.bindings = s.store.bindings)
        fun _ u => u.store.bindings = s.store.bindings :=
    (leading t).weaken (fun _ _ leads => (Leads.bindings still leads).trans before)
      fun _ _ leads => (Leads.bindings still leads).trans before
  refine (same (.checkAborted statement.span.location?) rfl).bind fun _ t checked => ?_
  cases statement with
  | expression e span => exact same (.expr e) checked
  | assignment target value span =>
    refine (same (.expr value) checked).bind fun v u valued => ?_
    have bound : (u.binding target v).store.bindings = s.store.bindings.set target v :=
      congrArg (Bindings.set target v) valued
    exact bound

theorem emitBindings (still : ctx.BindsNothing) {kind : EventKind} {e : Event} {s t : State σ}
    {outcome : Except Stop Unit} (told : runFrom s (Eval.emit ctx kind e) = (outcome, t)) :
    t.store.bindings = s.store.bindings := Leads.bindings still ((Leading.emit kind e).ran told)

theorem tellFailedBindings (still : ctx.BindsNothing) {index : Nat} {stop : Stop} {s t : State σ}
    {outcome : Except Stop Unit}
    (told : runFrom s (Stepper.tellFailed ctx index stop) = (outcome, t)) :
    t.store.bindings = s.store.bindings := by
  cases Stepper.tells ctx index stop with
  | event _ tells => exact emitBindings still (tells ▸ told)
  | unread _ tells =>
    rw [tells] at told
    cases told
    rfl

theorem failLeaves (still : ctx.BindsNothing) {st st' : Stepper} {stop : Stop} {s s' : State σ}
    {answer : Except Stop StepResult} (fails : Stepper.fail ctx st stop s = (answer, st', s')) :
    (st' = st ∨ st' = st.finished) ∧ s'.store.bindings = s.store.bindings := by
  unfold Stepper.fail at fails
  split at fails
  · cases fails
    exact ⟨.inl rfl, rfl⟩
  · have frozen : (Stepper.freeze ctx.domain s).store.bindings = s.store.bindings := rfl
    split at fails <;> rename_i told <;> cases fails <;>
      exact ⟨.inr rfl, (tellFailedBindings still told).trans frozen⟩

inductive StepLeaves (ctx : Context σ) (st : Stepper) (s : State σ) :
    Past → Except Stop StepResult → Stepper → State σ → Prop where
  | passed {statement rest v result s'} (going : st.done = false)
      (left : st.remaining = statement :: rest)
      (bindings : s'.store.bindings = statement.assign v s.store.bindings) :
      StepLeaves ctx st s [(statement, v)] (.ok result)
        { st with remaining := rest, index := st.index + 1, lastValue := v, done := rest.isEmpty } s'
  | unended {statement v e stop w t answer st' s'}
      (told : runFrom w (Eval.emit ctx .stepEnd e) = (.error stop, t))
      (place : st' = { st with lastValue := v } ∨ st' = { st with lastValue := v, done := true })
      (bindings : s'.store.bindings = statement.assign v s.store.bindings) :
      StepLeaves ctx st s [(statement, v)] answer st' s'
  | nothing {answer st' s'} (place : st' = st ∨ st' = st.finished)
      (bindings : s'.store.bindings = s.store.bindings) : StepLeaves ctx st s [] answer st' s'

theorem stepLeaves (still : ctx.BindsNothing) {st st' : Stepper} {s s' : State σ} {now : Past}
    {answer : Except Stop StepResult} (completes : st.Completes ctx s now)
    (step : Stepper.step ctx st s = (answer, st', s')) :
    StepLeaves ctx st s now answer st' s' := by
  cases completes with
  | @one statement rest begun v ended going left running started valued =>
    have assigned : ended.store.bindings = statement.assign v s.store.bindings := by
      rw [(statementAssigns still statement begun).onOk valued, emitBindings still started]
    have run : StepRun ctx st statement rest s (Stepper.step ctx st s) := stepRuns going left s
    rw [step] at run
    -- The step is the one that completes, so it has the same start and the same statement.
    cases run with
    | aborted pending => exact absurd pending running
    | unstarted _ refused => cases refused.symm.trans started
    | stopped _ started' stopped =>
      cases started'.symm.trans started
      cases stopped.symm.trans valued
    | unended _ started' valued' told fails =>
      cases started'.symm.trans started
      cases valued'.symm.trans valued
      obtain ⟨place, same⟩ := failLeaves still fails
      exact .unended told place (same.trans ((emitBindings still told).trans assigned))
    | valued _ started' valued' told =>
      cases started'.symm.trans started
      cases valued'.symm.trans valued
      refine .passed going left (.trans ?_ ((emitBindings still told).trans assigned))
      split <;> rfl
  | none stops =>
    rcases stepIdlesOrRuns step with ⟨_, rfl, rfl⟩ | ⟨statement, rest, going, left, run⟩
    · exact .nothing (.inr rfl) rfl
    cases run with
    | aborted => exact .nothing (.inr rfl) rfl
    | unstarted _ started => exact .nothing (.inl rfl) (emitBindings still started)
    | stopped _ started stopped fails =>
      obtain ⟨place, same⟩ := failLeaves still fails
      have stays := (statementAssigns still statement _).onStopped stopped
      exact .nothing place (same.trans (stays.trans (emitBindings still started)))
    | unended running started valued =>
      exact absurd valued (stops _ _ _ _ _ going left running started)
    | valued running started valued =>
      exact absurd valued (stops _ _ _ _ _ going left running started)

theorem Stepper.completes (ctx : Context σ) (st : Stepper) (s : State σ) :
    ∃ now, st.Completes ctx s now := by
  by_cases one : ∃ statement rest begun v ended, st.done = false ∧ st.remaining = statement :: rest ∧
      ¬ ctx.Aborted s ∧
      runFrom s (Eval.emit ctx .stepStart (.stepStart st.index st.total)) = (.ok (), begun) ∧
      runFrom begun (Eval.statement ctx statement) = (.ok v, ended)
  · obtain ⟨statement, rest, begun, v, ended, going, left, running, started, valued⟩ := one
    exact ⟨_, .one going left running started valued⟩
  · exact ⟨_, .none fun statement rest begun v ended going left running started valued =>
      one ⟨statement, rest, begun, v, ended, going, left, running, started, valued⟩⟩

structure Position (script : Script) (past : Past) (st : Stepper) : Prop where
  index : st.index = past.length
  behind : past.map Prod.fst = script.statements.take past.length
  left : st.done = false → st.remaining = script.statements.drop past.length

namespace StepLeaves

variable {script : Script} {past now : Past} {st st' : Stepper} {s s' : State σ}
  {answer : Except Stop StepResult} {b : Bindings Value}

theorem assigned (leaves : StepLeaves ctx st s now answer st' s')
    (before : s.store.bindings = past.assigned b) :
    s'.store.bindings = Past.assigned (past ++ now) b := by
  cases leaves with
  | passed _ _ bindings => rw [bindings, before, Past.assignedNext]
  | unended _ _ bindings => rw [bindings, before, Past.assignedNext]
  | nothing _ bindings => rw [bindings, before, List.append_nil]

theorem lastValue (leaves : StepLeaves ctx st s now answer st' s')
    (before : st.lastValue = past.lastValue) : st'.lastValue = Past.lastValue (past ++ now) := by
  cases leaves with
  | passed => rw [Past.lastNext]
  | unended _ place => rcases place with rfl | rfl <;> rw [Past.lastNext]
  | nothing place =>
    rw [List.append_nil, ← before]
    rcases place with rfl | rfl <;> rfl

theorem position (lets : ctx.LetsEnd) (leaves : StepLeaves ctx st s now answer st' s')
    (position : Position script past st) : Position script (past ++ now) st' := by
  cases leaves with
  | @passed statement rest v result _ going left =>
    obtain ⟨head, tail⟩ := dropNext ((position.left going).symm.trans left)
    have further : (past ++ [(statement, v)]).length = past.length + 1 := List.length_append
    refine ⟨(congrArg Nat.succ position.index).trans further.symm, ?_, fun _ => ?_⟩
    · rw [further, List.take_add_one, head, List.map_append, position.behind]
      rfl
    · rw [further, tail]
  | unended told => exact absurd told (emitGoesOn lets)
  | nothing place =>
    rw [List.append_nil]
    rcases place with rfl | rfl
    · exact position
    · exact ⟨position.index, position.behind, nofun⟩

end StepLeaves

namespace Stepping

variable {mayAct : Store σ → Store σ → Prop} {script : Script} {start s : State σ} {past : Past}
  {st : Stepper}

theorem bindings (still : ctx.BindsNothing) (binds : ∀ a b, mayAct a b → b.bindings = a.bindings)
    (stepping : Stepping ctx mayAct script start past st s) :
    s.store.bindings = past.assigned start.store.bindings := by
  induction stepping with
  | first => rfl
  | acted _ act allowed ih => exact (binds _ _ allowed).trans ih
  | stepped _ completes step _ ih => exact (stepLeaves still completes step).assigned ih

theorem lastValue (still : ctx.BindsNothing)
    (stepping : Stepping ctx mayAct script start past st s) : st.lastValue = past.lastValue := by
  induction stepping with
  | first => rfl
  | acted _ _ _ ih => exact ih
  | stepped _ completes step _ ih => exact (stepLeaves still completes step).lastValue ih

theorem position (still : ctx.BindsNothing) (lets : ctx.LetsEnd)
    (stepping : Stepping ctx mayAct script start past st s) : Position script past st := by
  induction stepping with
  | first => exact ⟨rfl, rfl, fun _ => rfl⟩
  | acted _ _ _ ih => exact ih
  | stepped _ completes step _ ih => exact (stepLeaves still completes step).position lets ih

end Stepping

structure StoppedBehind (script : Script) (start : State σ) (past : Past) (st : Stepper)
    (s : State σ) : Prop where
  index : st.index = past.length
  inside : past.length < script.statements.length
  behind : past.map Prod.fst = script.statements.take past.length
  bindings : s.store.bindings = past.assigned start.store.bindings
  value : (∀ kind name, ¬ Bindings.Blocks s.store.heap s.store.bindings kind name) →
    ∃ b, st.result s.store = .ok ⟨past.lastValue, b⟩

theorem Stepping.stops (still : ctx.BindsNothing) (lets : ctx.LetsEnd)
    {mayAct : Store σ → Store σ → Prop} (binds : ∀ a b, mayAct a b → b.bindings = a.bindings)
    {script : Script} {start s t u : State σ} {past : Past} {st st' : Stepper} {stop : Stop}
    (stepping : Stepping ctx mayAct script start past st s)
    (fails : Stepper.step ctx st s = (.error stop, st', t))
    (same : u.store.bindings = t.store.bindings) : StoppedBehind script start past st' u := by
  obtain ⟨going, statement, rest, left⟩ := failedLeft fails
  have position := stepping.position still lets
  have here := (dropNext ((position.left going).symm.trans left)).1
  have inside : past.length < script.statements.length := (List.getElem?_eq_some_iff.mp here).1
  obtain ⟨now, completes⟩ := st.completes ctx s
  cases stepLeaves still completes fails with
  | unended told => exact absurd told (emitGoesOn lets)
  | nothing place bindings =>
    have before := same.trans (bindings.trans (stepping.bindings still binds))
    have value {st' : Stepper} (same : st'.lastValue = st.lastValue)
        (free : ∀ kind name, ¬ Bindings.Blocks u.store.heap u.store.bindings kind name) :
        ∃ b, st'.result u.store = .ok ⟨past.lastValue, b⟩ := by
      rw [← stepping.lastValue still, ← same]
      exact ⟨_, RunResult.collectFree free⟩
    rcases place with rfl | rfl
    · exact ⟨position.index, inside, position.behind, before, value rfl⟩
    · exact ⟨position.index, inside, position.behind, before, value rfl⟩

theorem SteppedOut.stepping {mayAct : Store σ → Store σ → Prop} {script : Script} {start s u : State σ}
    {past : Past} {st : Stepper} {outcome : Except Stop RunResult}
    (out : SteppedOut ctx st s outcome u) (stepping : Stepping ctx mayAct script start past st s)
    (ready : st.done = st.remaining.isEmpty)
    (parts : past.map Prod.fst ++ st.remaining = script.statements) :
    (∃ past st s stop st', Stepping ctx mayAct script start past st s ∧
      Stepper.step ctx st s = (.error stop, st', u) ∧ outcome = .error stop) ∨
    ∃ past st, Stepping ctx mayAct script start past st u ∧
      past.map Prod.fst = script.statements ∧ outcome = st.result u.store := by
  induction out generalizing past with
  | done isDone =>
    refine .inr ⟨past, _, stepping, ?_, rfl⟩
    rw [isDone] at ready
    rwa [List.isEmpty_iff.mp ready.symm, List.append_nil] at parts
  | failed going fails => exact .inl ⟨past, _, _, _, _, stepping, fails, rfl⟩
  | next going stepped others ih =>
    rw [going] at ready
    have some := List.isEmpty_eq_false_iff.mp ready.symm
    obtain ⟨statement, rest, _, v, _, _, left, running, started, valued, _, rfl, _⟩ :=
      stepSucceeds going some stepped
    refine ih (stepping.stepped (.one going left running started valued) stepped
      fun same => by cases same) rfl ?_
    rw [List.map_append, List.append_assoc, ← parts, left]
    rfl

theorem Run.executeSteppedOut {script : Script} {s t : State σ} {outcome : Except Stop RunResult}
    (ran : Run.execute ctx script s = (outcome, t)) :
    ∃ u, SteppedOut ctx (.ofScript script) s outcome u ∧ t.store.bindings = u.store.bindings ∧
      ∀ v, RunResult.behind? t.store.heap v = RunResult.behind? u.store.heap v := by
  have out := @SteppedOut.ofStepAll _ ctx (.ofScript script) rfl s
  unfold Run.execute at ran
  dsimp only at ran
  split at ran <;> rename_i whole <;> rw [whole] at out <;> cases ran <;>
    exact ⟨_, out, rfl, fun _ => rfl⟩

/- Where neither hosts nor listeners bind a variable and every step may end, a step that fails leaves
the variables as the statements before it have assigned them, and the stepper with the value of the
last of them. A run that stops has come to such a step, or to variables without a place in its result. -/
theorem stopsBehind (still : ctx.BindsNothing) (lets : ctx.LetsEnd) (script : Script)
    (start : State σ) :
    (∀ past st s stop st' t, Stepping ctx Store.SameBindings script start past st s →
      Stepper.step ctx st s = (.error stop, st', t) → StoppedBehind script start past st' t) ∧
    ∀ stop t, Run.execute ctx script start = (.error stop, t) →
      (∃ past st s st' u, Stepping ctx (fun _ _ => False) script start past st s ∧
        Stepper.step ctx st s = (.error stop, st', u) ∧ StoppedBehind script start past st' t) ∨
      ∃ kind name, Bindings.Blocks t.store.heap t.store.bindings kind name := by
  refine ⟨fun past st s stop st' t stepping fails =>
    stepping.stops still lets (fun _ _ => id) fails rfl, fun stop t ran => ?_⟩
  obtain ⟨u, out, same, kinds⟩ := Run.executeSteppedOut ran
  have begins : Stepping ctx (fun _ _ => False) script start [] (.ofScript script) start := .first
  rcases out.stepping begins rfl rfl with
    ⟨past, st, s, _, st', stepping, fails, stopped⟩ | ⟨past, st, stepping, all, blocked⟩
  · cases stopped
    have behind := stepping.stops still lets (fun _ _ never => never.elim) fails same
    exact .inl ⟨past, st, s, st', u, stepping, fails, behind⟩
  · obtain ⟨kind, name, _, blocks⟩ := RunResult.collectBlocked blocked.symm
    refine .inr ⟨kind, name, ?_⟩
    simpa only [Bindings.Blocks, kinds, same] using blocks

theorem watchedBindsNothing : Stepper.watched.BindsNothing where
  host name f call s there := by
    obtain ⟨b, same⟩ := Context.builtinFound there
    cases same
  listener kind listener e s there := by
    cases there
    rfl

def appendThenFails : Script :=
  let x : Expr := .name (text "x") .synthetic
  let one : Expr := .literal (.number (.ofNat 1)) .synthetic
  ⟨[.assignment (text "x") (.sequence .list [] .synthetic) .synthetic,
    .assignment (text "x") (.sequence .list [some (.call (text "append") [x, one] .synthetic),
      some (.name (text "y") .synthetic)] .synthetic) .synthetic], .synthetic⟩

theorem appendedAndBehind :
    Stepper.watched.BindsNothing ∧ Stepper.watched.LetsEnd ∧
    (∃ past st s st' t, Stepping Stepper.watched Store.SameBindings appendThenFails blank past st s ∧
      Stepper.step Stepper.watched st s = (.error Stepper.unknownY, st', t) ∧
      t.store.heap.items 0 = [.number (.ofNat 1)] ∧
      t.store.bindings = [(text "x", .object 0)] ∧
      StoppedBehind appendThenFails blank past st' t) ∧
    ∃ t, Run.execute Stepper.watched appendThenFails blank = (.error Stepper.unknownY, t) ∧
      ∃ past st s st' u, Stepping Stepper.watched (fun _ _ => False) appendThenFails blank past st s ∧
        Stepper.step Stepper.watched st s = (.error Stepper.unknownY, st', u) ∧
        StoppedBehind appendThenFails blank past st' t := by
  have lets : Stepper.watched.LetsEnd := fun listener e s there => by
    cases there
    rfl
  have behind := stopsBehind watchedBindsNothing lets appendThenFails blank
  obtain ⟨st, s, st', t, stepping, fails, items, bindings⟩ : ∃ st s st' t,
      Stepping Stepper.watched Store.SameBindings appendThenFails blank
        [(appendThenFails.statements.head (List.cons_ne_nil _ _), .object 0)] st s ∧
      Stepper.step Stepper.watched st s = (.error Stepper.unknownY, st', t) ∧
      t.store.heap.items 0 = [.number (.ofNat 1)] ∧ t.store.bindings = [(text "x", .object 0)] :=
    ⟨_, _, _, _, .stepped .first (.one rfl rfl Bool.false_ne_true rfl rfl) rfl fun same => (by cases same),
      rfl, rfl, rfl⟩
  obtain ⟨u, ran, absent⟩ : ∃ u, Run.execute Stepper.watched appendThenFails blank =
      (.error Stepper.unknownY, u) ∧ Bindings.unheldName ∉ u.store.bindings.names :=
    ⟨_, rfl, by decide⟩
  have free : ¬ ∃ kind name, Bindings.Blocks u.store.heap u.store.bindings kind name :=
    fun ⟨_, _, blocks⟩ => absent (Bindings.blockedUnheld blocks)
  exact ⟨watchedBindsNothing, lets, ⟨_, st, s, st', t, stepping, fails, items, bindings,
    behind.1 _ _ _ _ _ _ stepping fails⟩, u, ran, (behind.2 _ _ ran).resolve_right free⟩

/- No statement completes and still a variable comes, from a listener. And the stepper that two
statements have passed has no value for its result, because the second variable has no place in it. -/
theorem boundByListener :
    ((∀ kind listener e s, bindingY.listener kind = some listener → (listener e s).1 = none) ∧
      bindingY.functions = Context.functionsWith [] ∧
      ∃ st t, Stepper.step bindingY (.ofScript xScript) blank =
          (.error (.fault ⟨.undefinedVariable (text "x"), none⟩), st, t) ∧
        blank.store.bindings = [] ∧ t.store.bindings = [(text "y", .none)]) ∧
    ∃ st t, Stepper.stepAll (Context.plain 0) 3
        (.ofScript ⟨takesLength ++ xScript.statements, .synthetic⟩) blank =
          (.error (.fault ⟨.undefinedVariable (text "x"), none⟩), st, t) ∧
      st.lastValue = .number (.ofNat 5) ∧
      st.result t.store = .error (RunResult.refused .tuple (text "length")) := by
  refine ⟨⟨fun kind listener e s there => ?_, rfl, _, _, rfl, rfl, rfl⟩, _, _, rfl, rfl, rfl⟩
  cases kind <;> cases there
  rfl

structure Keeps (seeded : Bindings Value) (past : Past) (b : Bindings Value) : Prop where
  once : b.names.Nodup
  names : ∀ n, n ∈ b.names ↔ n ∈ seeded.names ∨ ∃ p ∈ past, p.1.target? = some n
  values : ∀ n, b.get? n = (past.value? n).or (seeded.get? n)

theorem Past.keeps {seeded : Bindings Value} (distinct : seeded.names.Nodup) (past : Past) :
    Keeps seeded past (past.assigned seeded) :=
  ⟨distinctAssigned distinct, fun _ => memAssigned, fun _ => getAssigned⟩

structure Past.Results (seeded : Bindings Value) (past : Past) (s : Store σ)
    (result : Except Stop RunResult) : Prop where
  kept : Keeps seeded past s.bindings
  collects : RunResult.Collects s.heap past.lastValue s.bindings result
  whole : Bindings.unheldName ∉ s.bindings.names →
    ∃ r, result = .ok r ∧ r.value = past.lastValue ∧ Keeps seeded past r.bindings

theorem Stepping.results (still : ctx.BindsNothing) {mayAct : Store σ → Store σ → Prop}
    (binds : ∀ a b, mayAct a b → b.bindings = a.bindings) {script : Script} {start s : State σ}
    {past : Past} {st : Stepper} (stepping : Stepping ctx mayAct script start past st s)
    (distinct : start.store.bindings.names.Nodup) :
    past.Results start.store.bindings s.store (st.result s.store) := by
  have kept : Keeps start.store.bindings past s.store.bindings :=
    stepping.bindings still binds ▸ past.keeps distinct
  rw [Stepper.result, stepping.lastValue still]
  exact ⟨kept, RunResult.collects .., fun absent =>
    ⟨_, RunResult.collectHeld _ _ absent, rfl, kept⟩⟩

/- Where neither hosts nor listeners bind a variable, the result of a stepper has all variables,
whatever the steps have answered: those that were bound at first and those that were assigned, with
their last values. So has the result of a run, unless one of its steps fails. Only the name that no
result holds is an exception, and what comes behind a sequence that is bound to it. -/
theorem resultKeeps (still : ctx.BindsNothing) (script : Script) (start : State σ)
    (distinct : start.store.bindings.names.Nodup) :
    (∀ past st s, Stepping ctx Store.SameBindings script start past st s →
      past.Results start.store.bindings s.store (st.result s.store)) ∧
    ∀ outcome t, Run.execute ctx script start = (outcome, t) →
      (∃ past st s stop st' u, Stepping ctx (fun _ _ => False) script start past st s ∧
        Stepper.step ctx st s = (.error stop, st', u) ∧ outcome = .error stop) ∨
      ∃ past st s, Stepping ctx (fun _ _ => False) script start past st s ∧
        past.map Prod.fst = script.statements ∧ t.store.bindings = s.store.bindings ∧
        past.Results start.store.bindings s.store outcome := by
  refine ⟨fun past st s stepping => stepping.results still (fun _ _ => id) distinct,
    fun outcome t ran => ?_⟩
  obtain ⟨u, out, same, _⟩ := Run.executeSteppedOut ran
  have begins : Stepping ctx (fun _ _ => False) script start [] (.ofScript script) start := .first
  refine (out.stepping begins rfl rfl).imp ?_ ?_
  · rintro ⟨past, st, s, stop, st', stepping, fails, stopped⟩
    exact ⟨past, st, s, stop, st', u, stepping, fails, stopped⟩
  · rintro ⟨past, st, stepping, all, rfl⟩
    exact ⟨past, st, u, stepping, all, same,
      stepping.results still (fun _ _ never => never.elim) distinct⟩

def assignsTwo (name : Text) : Script :=
  ⟨[.assignment name (.literal (.number (.ofNat 1)) .synthetic) .synthetic,
    .assignment (text "x") (.literal (.number (.ofNat 2)) .synthetic) .synthetic], .synthetic⟩

theorem reassignedKept :
    Stepper.watched.BindsNothing ∧ seededX.store.bindings.names.Nodup ∧
    (∃ past st s, Stepping Stepper.watched Store.SameBindings (assignsTwo (text "y")) seededX past st s ∧
      st.done = false ∧ Bindings.unheldName ∉ s.store.bindings.names ∧
      past.Results seededX.store.bindings s.store (st.result s.store)) ∧
    ∃ result t, Run.execute Stepper.watched (assignsTwo (text "y")) seededX = (.ok result, t) ∧
      Bindings.unheldName ∉ t.store.bindings.names ∧
      result.bindings = [(text "x", .number (.ofNat 2)), (text "y", .number (.ofNat 1))] ∧
      ∃ past st s, Stepping Stepper.watched (fun _ _ => False) (assignsTwo (text "y")) seededX past st s ∧
        past.map Prod.fst = (assignsTwo (text "y")).statements ∧
        Keeps seededX.store.bindings past result.bindings := by
  have distinct : seededX.store.bindings.names.Nodup := by simp [seededX, Bindings.names]
  have keeps := resultKeeps watchedBindsNothing (assignsTwo (text "y")) seededX distinct
  obtain ⟨past, st, s, stepping, going, absent⟩ : ∃ past st s,
      Stepping Stepper.watched Store.SameBindings (assignsTwo (text "y")) seededX past st s ∧
        st.done = false ∧ Bindings.unheldName ∉ s.store.bindings.names :=
    ⟨_, _, _, .stepped .first (.one rfl rfl Bool.false_ne_true rfl rfl) rfl
      fun same => (by cases same), rfl, by decide⟩
  obtain ⟨result, t, ran, absent', bindings⟩ : ∃ result t,
      Run.execute Stepper.watched (assignsTwo (text "y")) seededX = (.ok result, t) ∧
        Bindings.unheldName ∉ t.store.bindings.names ∧
        result.bindings = [(text "x", .number (.ofNat 2)), (text "y", .number (.ofNat 1))] :=
    ⟨_, _, rfl, by decide, rfl⟩
  refine ⟨watchedBindsNothing, distinct, ⟨past, st, s, stepping, going, absent,
    keeps.1 _ _ _ stepping⟩, result, t, ran, absent', bindings, ?_⟩
  rcases keeps.2 _ _ ran with ⟨_, _, _, _, _, _, _, _, failed⟩ | ⟨past, st, s, stepping, all, same, results⟩
  · cases failed
  · obtain ⟨r, collected, _, kept⟩ := results.whole (same ▸ absent')
    cases collected
    exact ⟨past, st, s, stepping, all, kept⟩

theorem assignedNameLost :
    Stepper.watched.BindsNothing ∧
    ∃ result t, Run.execute Stepper.watched (assignsTwo Bindings.unheldName) blank = (.ok result, t) ∧
      t.store.bindings.get? Bindings.unheldName = some (.number (.ofNat 1)) ∧
      Bindings.unheldName ∉ result.bindings.names :=
  ⟨watchedBindsNothing, _, _, rfl, rfl, by decide⟩

end SeqScript
