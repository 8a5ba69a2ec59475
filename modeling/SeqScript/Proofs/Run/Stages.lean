import SeqScript.Proofs.Run.Begins

/-! Runs of scripts, statement by statement. A run advances through the effects of its expressions,
its assignments and its freezing; its stages are the states between its steps. -/
namespace SeqScript
open Relation (ReflTransGen)
open Stepper (runFrom)

variable {σ : Type}

def State.binding (s : State σ) (name : Text) (v : Value) : State σ :=
  { s with store := { s.store with bindings := s.store.bindings.set name v } }

inductive RunEffect (ctx : Context σ) : State σ → State σ → Prop where
  | evaluated {s t : State σ} (effect : Effect ctx s t) : RunEffect ctx s t
  | bound (s : State σ) (name : Text) (v : Value) : RunEffect ctx s (s.binding name v)
  | froze (s : State σ) : RunEffect ctx s (Stepper.freeze ctx.domain s)

abbrev Advances (ctx : Context σ) : State σ → State σ → Prop := ReflTransGen (RunEffect ctx)

variable {ctx : Context σ}

theorem Leads.advances {s t : State σ} (leads : Leads ctx s t) : Advances ctx s t :=
  leads.lift id fun _ _ => .evaluated

structure Context.KeepsHeap (ctx : Context σ) : Prop where
  host : ∀ name f call (s : Store σ), ctx.functions.get? name = some (.host f) →
    s.heap.Keeps (f call s).2.heap
  listener : ∀ kind listener e (s : Store σ), ctx.listener kind = some listener →
    s.heap.Keeps (listener e s).2.heap

theorem RunEffect.keeps (keeping : ctx.KeepsHeap) {s t : State σ} (effect : RunEffect ctx s t) :
    s.store.heap.Keeps t.store.heap := by
  cases effect with
  | bound => exact .refl _
  | froze => exact (Heap.Change.froze _ _).keeps
  | evaluated effect =>
    cases effect with
    | noted => exact .refl _
    | heard e there => exact keeping.listener _ _ _ _ there
    | made o => exact Heap.keepsAlloc _ o
    | extended allowed => exact (Heap.Change.extended allowed).keeps
    | aborted => exact .refl _
    | called call there => exact keeping.host _ _ _ _ there

theorem Advances.keeps (keeping : ctx.KeepsHeap) {s t : State σ} (advances : Advances ctx s t) :
    s.store.heap.Keeps t.store.heap := by
  induction advances with
  | refl => exact .refl _
  | tail _ effect ih => exact ih.trans (effect.keeps keeping)

namespace Eval

theorem statementAdvances (ctx : Context σ) (statement : Statement) (s : State σ) :
    Ensures s (Eval.statement ctx statement) (fun _ t => Advances ctx s t)
      fun _ t => Advances ctx s t := by
  have onward {α : Type} {m : Eval σ α} (leading : Leading ctx m) {t : State σ}
      (advances : Advances ctx s t) :
      Ensures t m (fun _ u => Advances ctx s u) fun _ u => Advances ctx s u :=
    (leading t).weaken (fun _ _ leads => advances.trans leads.advances)
      fun _ _ leads => advances.trans leads.advances
  refine (onward (.checkAborted _) .refl).bind fun _ t checked => ?_
  cases statement with
  | expression e span => exact onward (.expr e) checked
  | assignment target value span =>
    exact (onward (.expr value) checked).bind fun v u valued => valued.tail (.bound u target v)

end Eval

variable (ctx)

namespace Stepper

theorem emitAdvances (kind : EventKind) (e : Event) (s : State σ) :
    Advances ctx s (runFrom s (Eval.emit ctx kind e)).2 := (Leading.emit kind e).run s |>.advances

theorem statementAdvances (statement : Statement) (s : State σ) :
    Advances ctx s (runFrom s (Eval.statement ctx statement)).2 := by
  unfold runFrom
  rcases (Eval.statementAdvances ctx statement s).outcome with
    ⟨v, t, run, advances⟩ | ⟨stop, t, run, advances⟩ <;> rw [run] <;> exact advances

end Stepper

variable {ctx}

/-- What a failed step answers for a reason: the reason, unless it is read as a text for a listener and
has none. -/
def Context.answered (ctx : Context σ) (stop : Stop) : Stop :=
  if (ctx.listener .failed).isSome then stop.unread?.getD stop else stop

namespace Context

theorem answeredRead {stop : Stop} (read : (ctx.listener .failed).isSome → stop.unread? = none) :
    ctx.answered stop = stop := by
  unfold answered
  split
  · rename_i there
    rw [read there, Option.getD_none]
  · rfl

theorem answeredUnread {instead : Stop} (there : (ctx.listener .failed).isSome) :
    ctx.answered (.unreadable instead) = instead := if_pos there

end Context

inductive Stepper.Tells (ctx : Context σ) (index : Nat) : Stop → Prop where
  | event {stop} (read : (ctx.listener .failed).isSome → stop.unread? = none)
      (tells : tellFailed ctx index stop = Eval.emit ctx .failed (.failed index stop)) :
      Tells ctx index stop
  | unread {instead} (there : (ctx.listener .failed).isSome)
      (tells : tellFailed ctx index (.unreadable instead) = throw instead) :
      Tells ctx index (.unreadable instead)

theorem Stepper.tells (ctx : Context σ) (index : Nat) (stop : Stop) :
    Stepper.Tells ctx index stop := by
  cases there : ctx.listener .failed with
  | none => exact .event (by simp [there]) (by simp [tellFailed, there])
  | some listener =>
    cases stop with
    | unreadable instead => exact .unread (by simp [there]) (by simp [tellFailed, there, Stop.unread?])
    | fault | failure | thrown | foreign | stalled =>
      exact .event (fun _ => rfl) (by simp [tellFailed, Stop.unread?])

def noText : Stop := .failure (text "TypeError") (text "Cannot convert object to primitive value")

def raisesNoText : HostFunction Unit := fun _ s => (.raised (.unreadable noText), s)

variable (ctx)

structure Carried (ctx : Context σ) (R : State σ → State σ → Prop) : Prop where
  refl : ∀ s, R s s
  trans : ∀ {s t u}, R s t → R t u → R s u
  emit : ∀ kind e s, R s (runFrom s (Eval.emit ctx kind e)).2
  statement : ∀ statement s, R s (runFrom s (Eval.statement ctx statement)).2
  freeze : ∀ s, R s (Stepper.freeze ctx.domain s)

namespace Carried

variable {ctx : Context σ} {R : State σ → State σ → Prop}

theorem tellFailed (carried : Carried ctx R) (index : Nat) (stop : Stop) (s : State σ) :
    R s (runFrom s (Stepper.tellFailed ctx index stop)).2 := by
  cases Stepper.tells ctx index stop with
  | event _ tells => exact tells ▸ carried.emit .failed (.failed index stop) s
  | unread _ tells => exact tells ▸ carried.refl s

theorem fail (carried : Carried ctx R) (st : Stepper) (stop : Stop) (s : State σ) :
    R s (Stepper.fail ctx st stop s).2.2 := by
  unfold Stepper.fail
  split
  · exact carried.refl s
  · have told := carried.tellFailed st.index stop (Stepper.freeze ctx.domain s)
    split <;> (rename_i ran; rw [ran] at told; exact carried.trans (carried.freeze s) told)

theorem succeed (carried : Carried ctx R) (st : Stepper) (rest : List Statement) (v : Value)
    (s : State σ) : R s (Stepper.succeed ctx st rest v s).2.2 := by
  have told := carried.emit .stepEnd (.stepEnd st.index st.total v) s
  unfold Stepper.succeed
  dsimp only
  split
  · rename_i ran
    rw [ran] at told
    exact carried.trans told (carried.fail _ _ _)
  · rename_i ran
    rw [ran] at told
    dsimp only
    split
    · exact carried.trans told (carried.freeze _)
    · exact told

theorem step (carried : Carried ctx R) (st : Stepper) (s : State σ) : R s (Stepper.step ctx st s).2.2 := by
  unfold Stepper.step
  split
  · rename_i statement rest _ _
    have told := carried.emit .stepStart (.stepStart st.index st.total) s
    split
    · exact carried.freeze s
    · split
      · rename_i ran
        rw [ran] at told
        exact told
      · rename_i u ran
        rw [ran] at told
        have evaluated := carried.statement statement u
        split <;> rename_i valued <;> rw [valued] at evaluated
        · exact carried.trans told (carried.trans evaluated (carried.fail _ _ _))
        · exact carried.trans told (carried.trans evaluated (carried.succeed _ _ _ _))
  · exact carried.freeze s

theorem stepAll (carried : Carried ctx R) (n : Nat) (st : Stepper) (s : State σ) :
    R s (Stepper.stepAll ctx n st s).2.2 := by
  induction n generalizing st s with
  | zero => exact carried.refl s
  | succ n ih =>
    unfold Stepper.stepAll
    split
    · exact carried.refl s
    · have stepped := carried.step st s
      split <;> rename_i ran <;> rw [ran] at stepped
      · exact stepped
      · exact carried.trans stepped (ih _ _)

theorem execute (carried : Carried ctx R) (script : Script) (s : State σ) :
    R s (Run.execute ctx script s).2 := by
  have stepped := carried.stepAll (Stepper.ofScript script).remaining.length (.ofScript script) s
  unfold Run.execute
  dsimp only
  split <;> rename_i ran <;> rw [ran] at stepped
  · exact stepped
  · exact carried.trans stepped (carried.freeze _)
  · exact carried.trans stepped (carried.freeze _)

end Carried

theorem advancesCarried : Carried ctx (Advances ctx) where
  refl _ := .refl
  trans first second := first.trans second
  emit kind e s := Stepper.emitAdvances ctx kind e s
  statement statement s := Stepper.statementAdvances ctx statement s
  freeze s := .single (.froze s)

namespace Run

theorem evaluateLeads (e : Expr) (s : State σ) : Leads ctx s (evaluate ctx e s).2 :=
  (Leading.expr e).run s

end Run

inductive Stage (ctx : Context σ) (script : Script) (start : State σ) : Stepper → State σ → Prop where
  | first : Stage ctx script start (.ofScript script) start
  | next {st s result st' s'} (stage : Stage ctx script start st s) (going : st.done = false)
      (stepped : Stepper.step ctx st s = (.ok result, st', s')) : Stage ctx script start st' s'

def StatementBegins (ctx : Context σ) (script : Script) (start : State σ) (index : Nat)
    (statement : Statement) (s : State σ) : Prop :=
  ∃ st u rest, Stage ctx script start st u ∧ st.done = false ∧ st.remaining = statement :: rest ∧
    st.index = index ∧ ¬ ctx.Aborted u ∧
    runFrom u (Eval.emit ctx .stepStart (.stepStart index st.total)) = (.ok (), s) ∧
    ¬ ctx.Aborted s

def RunBegins (ctx : Context σ) (script : Script) (start : State σ) (index : Nat) (d : Expr)
    (t : State σ) : Prop :=
  ∃ statement s, StatementBegins ctx script start index statement s ∧
    Begins ctx (.expr statement.expr) s d t

variable {ctx}

inductive StepRun (ctx : Context σ) (st : Stepper) (statement : Statement) (rest : List Statement)
    (s : State σ) : Except Stop StepResult × Stepper × State σ → Prop where
  | aborted (pending : ctx.Aborted s) :
      StepRun ctx st statement rest s (.error (.fault ⟨.aborted, statement.span.location?⟩),
        st.finished, Stepper.freeze ctx.domain s)
  | unstarted {stop t} (running : ¬ ctx.Aborted s)
      (started : runFrom s (Eval.emit ctx .stepStart (.stepStart st.index st.total)) =
        (.error stop, t)) :
      StepRun ctx st statement rest s (.error stop, st, t)
  | stopped {begun stop ended result} (running : ¬ ctx.Aborted s)
      (started : runFrom s (Eval.emit ctx .stepStart (.stepStart st.index st.total)) = (.ok (), begun))
      (stopped : runFrom begun (Eval.statement ctx statement) = (.error stop, ended))
      (fails : Stepper.fail ctx st stop ended = result) : StepRun ctx st statement rest s result
  | unended {begun v ended stop t result} (running : ¬ ctx.Aborted s)
      (started : runFrom s (Eval.emit ctx .stepStart (.stepStart st.index st.total)) = (.ok (), begun))
      (valued : runFrom begun (Eval.statement ctx statement) = (.ok v, ended))
      (told : runFrom ended (Eval.emit ctx .stepEnd (.stepEnd st.index st.total v)) = (.error stop, t))
      (fails : Stepper.fail ctx { st with lastValue := v } stop t = result) :
      StepRun ctx st statement rest s result
  | valued {begun v ended t} (running : ¬ ctx.Aborted s)
      (started : runFrom s (Eval.emit ctx .stepStart (.stepStart st.index st.total)) = (.ok (), begun))
      (valued : runFrom begun (Eval.statement ctx statement) = (.ok v, ended))
      (told : runFrom ended (Eval.emit ctx .stepEnd (.stepEnd st.index st.total v)) = (.ok (), t)) :
      StepRun ctx st statement rest s (.ok ⟨v, rest.isEmpty, st.index, st.total⟩,
        { st with remaining := rest, index := st.index + 1, lastValue := v, done := rest.isEmpty },
        if rest.isEmpty then Stepper.freeze ctx.domain t else t)

theorem stepRuns {st : Stepper} {statement : Statement} {rest : List Statement}
    (going : st.done = false) (left : st.remaining = statement :: rest) (s : State σ) :
    StepRun ctx st statement rest s (Stepper.step ctx st s) := by
  unfold Stepper.step
  rw [going, left]
  dsimp only
  by_cases pending : (ctx.hasSignal && s.store.aborted) = true
  · rw [if_pos pending]
    exact .aborted pending
  rw [if_neg pending]
  rcases started : runFrom s (Eval.emit ctx .stepStart (.stepStart st.index st.total)) with
    ⟨stop | _, begun⟩
  · exact .unstarted pending started
  dsimp only
  rcases valued : runFrom begun (Eval.statement ctx statement) with ⟨stop | v, ended⟩
  · exact .stopped pending started valued rfl
  dsimp only
  unfold Stepper.succeed
  dsimp only
  rcases told : runFrom ended (Eval.emit ctx .stepEnd (.stepEnd st.index st.total v)) with
    ⟨stop | _, t⟩
  · exact .unended pending started valued told rfl
  · exact .valued pending started valued told

theorem stepIdlesOrRuns {st st' : Stepper} {s s' : State σ} {answer : Except Stop StepResult}
    (step : Stepper.step ctx st s = (answer, st', s')) :
    (answer = .ok ⟨st.lastValue, true, st.index, st.total⟩ ∧ st' = st.finished ∧
      s' = Stepper.freeze ctx.domain s) ∨
    ∃ statement rest, st.done = false ∧ st.remaining = statement :: rest ∧
      StepRun ctx st statement rest s (answer, st', s') := by
  cases isDone : st.done with
  | true =>
    rw [Stepper.step, isDone] at step
    cases step
    exact .inl ⟨rfl, rfl, rfl⟩
  | false =>
    cases left : st.remaining with
    | nil =>
      rw [Stepper.step, isDone, left] at step
      cases step
      exact .inl ⟨rfl, rfl, rfl⟩
    | cons statement rest => exact .inr ⟨statement, rest, rfl, rfl, step ▸ stepRuns isDone left s⟩

theorem failStops {st st' : Stepper} {stop : Stop} {s s' : State σ} {result : StepResult} :
    Stepper.fail ctx st stop s ≠ (.ok result, st', s') := by
  unfold Stepper.fail
  split
  · nofun
  · split <;> nofun

theorem stepSucceeds {st st' : Stepper} {s s' : State σ} {result : StepResult}
    (going : st.done = false) (left : st.remaining ≠ [])
    (stepped : Stepper.step ctx st s = (.ok result, st', s')) :
    ∃ statement rest u v w x, st.remaining = statement :: rest ∧ ¬ ctx.Aborted s ∧
      runFrom s (Eval.emit ctx .stepStart (.stepStart st.index st.total)) = (.ok (), u) ∧
      runFrom u (Eval.statement ctx statement) = (.ok v, w) ∧
      runFrom w (Eval.emit ctx .stepEnd (.stepEnd st.index st.total v)) = (.ok (), x) ∧
      st' = { st with remaining := rest, index := st.index + 1, lastValue := v, done := rest.isEmpty } ∧
      s' = if rest.isEmpty then Stepper.freeze ctx.domain x else x := by
  obtain ⟨statement, rest, remaining⟩ := List.exists_cons_of_ne_nil left
  have run : StepRun ctx st statement rest s (Stepper.step ctx st s) := stepRuns going remaining s
  rw [stepped] at run
  cases run with
  | stopped _ _ _ fails => exact absurd fails failStops
  | unended _ _ _ _ fails => exact absurd fails failStops
  | valued running started valued told =>
    exact ⟨statement, rest, _, _, _, _, remaining, running, started, valued, told, rfl, rfl⟩

theorem dropNext {α : Type} {l rest : List α} {a : α} {i : Nat} (here : l.drop i = a :: rest) :
    l[i]? = some a ∧ l.drop (i + 1) = rest := by
  have head := congrArg List.head? here
  have tail := congrArg List.tail here
  rw [List.head?_drop] at head
  rw [List.tail_drop] at tail
  exact ⟨head, tail⟩

namespace Stage

theorem position {script : Script} {start : State σ} {st : Stepper} {s : State σ}
    (stage : Stage ctx script start st s) :
    st.remaining = script.statements.drop st.index ∧ st.done = st.remaining.isEmpty := by
  induction stage with
  | first => exact ⟨rfl, rfl⟩
  | @next st s result st' s' stage going stepped ih =>
    have left : st.remaining ≠ [] := by
      intro none
      simp [none, going] at ih
    obtain ⟨statement, rest, u, v, w, x, remaining, _, _, _, _, rfl, _⟩ :=
      stepSucceeds going left stepped
    exact ⟨(dropNext (ih.1.symm.trans remaining)).2.symm, rfl⟩

theorem left {script : Script} {start : State σ} {st : Stepper} {s : State σ}
    (stage : Stage ctx script start st s) (going : st.done = false) : st.remaining ≠ [] := by
  intro none
  have position := stage.position.2
  simp [none, going] at position

theorem here {script : Script} {start : State σ} {st : Stepper} {s : State σ}
    (stage : Stage ctx script start st s) {statement : Statement} {rest : List Statement}
    (remaining : st.remaining = statement :: rest) :
    script.statements[st.index]? = some statement :=
  (dropNext (stage.position.1.symm.trans remaining)).1

theorem stepAll {script : Script} {start : State σ} {st : Stepper} {s : State σ}
    (stage : Stage ctx script start st s) :
    Stepper.stepAll ctx script.statements.length (.ofScript script) start =
      Stepper.stepAll ctx st.remaining.length st s := by
  induction stage with
  | first => rfl
  | @next st s result st' s' stage going stepped ih =>
    obtain ⟨statement, rest, u, v, w, x, remaining, _, _, _, _, rfl, rfl⟩ :=
      stepSucceeds going (stage.left going) stepped
    rw [ih, remaining, List.length_cons, Stepper.stepAll, going, stepped]
    rfl

theorem executes {script : Script} {start : State σ} {st : Stepper} {s : State σ}
    (stage : Stage ctx script start st s) :
    Advances ctx (Stepper.stepAll ctx st.remaining.length st s).2.2
      (Run.execute ctx script start).2 := by
  unfold Run.execute
  dsimp only [Stepper.ofScript]
  have same := stage.stepAll
  dsimp only [Stepper.ofScript] at same
  rw [same]
  split <;> rename_i ran <;> rw [ran]
  · exact .single (.froze _)
  · exact .single (.froze _)

theorem advances {script : Script} {start : State σ} {st : Stepper} {s : State σ}
    (stage : Stage ctx script start st s) : Advances ctx start s := by
  induction stage with
  | first => exact .refl
  | @next st s result st' s' stage going stepped ih =>
    have whole := (advancesCarried ctx).step st s
    rw [stepped] at whole
    exact ih.trans whole

end Stage

theorem statementOn (statement : Statement) {s : State σ} (runs : ¬ ctx.Aborted s) :
    Advances ctx (runFrom s (Eval.expr ctx statement.expr)).2
      (runFrom s (Eval.statement ctx statement)).2 := by
  cases statement with
  | expression e span =>
    have whole : runFrom s (Eval.statement ctx (.expression e span)) =
        runFrom s (Eval.expr ctx e) := runChecked runs
    rw [whole]
    exact .refl
  | assignment target value span =>
    have whole : runFrom s (Eval.statement ctx (.assignment target value span)) =
        runFrom s (Eval.expr ctx value >>= fun v => Eval.bind target v >>= fun _ => pure v) :=
      runChecked runs
    rw [whole]
    rcases (ensuresTrivial (Eval.expr ctx value) (s := s)).outcome with
      ⟨v, t, run, _⟩ | ⟨stop, t, run, _⟩
    · have first : runFrom s (Eval.expr ctx value) = (.ok v, t) := run
      rw [runBind first, Statement.expr, first]
      exact .single (.bound t target v)
    · have first : runFrom s (Eval.expr ctx value) = (.error stop, t) := run
      rw [runBindStopped first, Statement.expr, first]

theorem stepOn {st : Stepper} {statement : Statement} {rest : List Statement} {s u : State σ}
    (going : st.done = false) (remaining : st.remaining = statement :: rest)
    (runs : ¬ ctx.Aborted s)
    (started : runFrom s (Eval.emit ctx .stepStart (.stepStart st.index st.total)) = (.ok (), u)) :
    Advances ctx (runFrom u (Eval.statement ctx statement)).2 (Stepper.step ctx st s).2.2 := by
  have running : ¬ (ctx.hasSignal && s.store.aborted) = true := runs
  unfold Stepper.step
  rw [going, remaining]
  dsimp only
  rw [if_neg running, started]
  dsimp only
  split <;> rename_i valued <;> rw [valued]
  · exact (advancesCarried ctx).fail _ _ _
  · exact (advancesCarried ctx).succeed _ _ _ _

theorem RunBegins.advances {script : Script} {start t : State σ} {i : Nat} {d : Expr}
    (begins : RunBegins ctx script start i d t) : Advances ctx start t := by
  obtain ⟨statement, s, ⟨st, u, rest, stage, _, _, rfl, _, started, _⟩, inside⟩ := begins
  have told := Stepper.emitAdvances ctx .stepStart (.stepStart st.index st.total) u
  rw [started] at told
  exact stage.advances.trans (told.trans inside.leads.advances)

theorem RunBegins.goesOn {script : Script} {start t : State σ} {i : Nat} {d : Expr}
    (begins : RunBegins ctx script start i d t) :
    Advances ctx (runFrom t (Eval.expr ctx d)).2 (Run.execute ctx script start).2 := by
  obtain ⟨statement, s, ⟨st, u, rest, stage, going, remaining, rfl, runs, started, running⟩, inside⟩ :=
    begins
  have behindNode : Advances ctx (runFrom t (Eval.expr ctx d)).2
      (runFrom s (Eval.expr ctx statement.expr)).2 := inside.goesOn.advances
  have behindStatement := stepOn going remaining runs started
  have behindStep : Advances ctx (Stepper.step ctx st u).2.2
      (Stepper.stepAll ctx st.remaining.length st u).2.2 := by
    rw [remaining, List.length_cons, Stepper.stepAll, going]
    split
    · contradiction
    · split <;> rename_i stepped <;> rw [stepped]
      exact (advancesCarried ctx).stepAll _ _ _
  exact behindNode.trans ((statementOn statement running).trans
    (behindStatement.trans (behindStep.trans stage.executes)))

end SeqScript
