import SeqScript.Proofs.Run.Aborts
import SeqScript.Proofs.Run.Freezing

/-! Empty slots of sequences. The elements in front of the first empty slot are evaluated in their
order and nothing behind it is, and what stops the sequence there, or stopped an element before,
stops everything around it and the run. -/
namespace SeqScript
open Stepper (runFrom)

variable {σ : Type}

inductive Evaluated (ctx : Context σ) : List Expr → State σ → List Value → State σ → Prop where
  | none (s : State σ) : Evaluated ctx [] s [] s
  | more {e rest s v u vs t} (first : runFrom s (Eval.expr ctx e) = (.ok v, u))
      (others : Evaluated ctx rest u vs t) : Evaluated ctx (e :: rest) s (v :: vs) t

inductive StopsBeside (ctx : Context σ) (slot : Stop) (given : List Expr) (s : State σ) :
    Stop → State σ → Prop where
  | element {before e behind vs t stop u} (split : given = before ++ e :: behind)
      (valued : Evaluated ctx before s vs t) (stopped : runFrom t (Eval.expr ctx e) = (.error stop, u)) :
      StopsBeside ctx slot given s stop u
  | slot {vs u} (valued : Evaluated ctx given s vs u) : StopsBeside ctx slot given s slot u

def Expr.emptySlot (limits : Limits) (literal : Expr) (index : Nat) : Fault :=
  ⟨.missingElement (literal.summary limits) index, literal.span.location?⟩

variable {ctx : Context σ}

theorem Leads.running (signals : ctx.Signals) {s t : State σ} (leads : Leads ctx s t)
    (running : ¬ ctx.Aborted t) : ¬ ctx.Aborted s := by
  intro aborted
  obtain ⟨signal, pending⟩ := Bool.and_eq_true_iff.mp aborted
  exact running (Bool.and_eq_true_iff.mpr ⟨signal, leads.keepsAbort signals pending⟩)

theorem Advances.running (signals : ctx.Signals) {s t : State σ} (advances : Advances ctx s t)
    (running : ¬ ctx.Aborted t) : ¬ ctx.Aborted s := by
  induction advances with
  | refl => exact running
  | tail _ effect ih =>
    cases effect with
    | evaluated effect => exact ih (Leads.running signals (.single effect) running)
    | bound => exact ih running
    | froze => exact ih running

theorem StopsBeside.behind {slot stop : Stop} {e : Expr} {rest : List Expr} {s t u : State σ}
    {v : Value} (first : runFrom s (Eval.expr ctx e) = (.ok v, t))
    (stops : StopsBeside ctx slot rest t stop u) : StopsBeside ctx slot (e :: rest) s stop u := by
  cases stops with
  | element split valued stopped =>
    exact .element (congrArg (e :: ·) split) (.more first valued) stopped
  | slot valued => exact .slot (.more first valued)

def Part.Stops (ctx : Context σ) (stop : Stop) (s : State σ) : Part → Prop
  | expr e => ∃ u, runFrom s (Eval.expr ctx e) = (.error stop, u)
  | slots literal index elements => ∃ u, runFrom s (Eval.slots ctx literal index elements) =
      (.error stop, u)
  | exprs es => ∃ u, runFrom s (Eval.exprs ctx es) = (.error stop, u)

/- A node that stops the evaluation stops all that it is part of, by the same. -/
theorem Begins.stops {p : Part} {s t : State σ} {d : Expr} {stop : Stop}
    (begins : Begins ctx p s d t) (stops : (Part.expr d).Stops ctx stop t) : p.Stops ctx stop s := by
  induction begins with
  | here => exact stops
  | element runs _ ih =>
    obtain ⟨u, stopped⟩ := ih stops
    exact ⟨u, (runChecked runs).trans (runBindStopped stopped)⟩
  | argument runs there _ ih =>
    obtain ⟨u, stopped⟩ := ih stops
    exact ⟨u, (runChecked runs).trans ((runFunction there).trans (runBindStopped stopped))⟩
  | object runs _ ih =>
    obtain ⟨u, stopped⟩ := ih stops
    exact ⟨u, (runChecked runs).trans (runBindStopped stopped)⟩
  | index runs before _ ih =>
    obtain ⟨u, stopped⟩ := ih stops
    exact ⟨u, (runChecked runs).trans ((runBind before).trans (runBindStopped stopped))⟩
  | operand runs _ ih =>
    obtain ⟨u, stopped⟩ := ih stops
    exact ⟨u, (runChecked runs).trans (runBindStopped stopped)⟩
  | firstSlot runs _ ih =>
    obtain ⟨u, stopped⟩ := ih stops
    exact ⟨u, (runChecked runs).trans (runBindStopped stopped)⟩
  | laterSlot runs before _ ih =>
    obtain ⟨u, stopped⟩ := ih stops
    exact ⟨u, (runChecked runs).trans ((runBind before).trans (runBindStopped stopped))⟩
  | firstArg _ ih =>
    obtain ⟨u, stopped⟩ := ih stops
    exact ⟨u, runBindStopped stopped⟩
  | laterArg before _ ih =>
    obtain ⟨u, stopped⟩ := ih stops
    exact ⟨u, (runBind before).trans (runBindStopped stopped)⟩

theorem statementStops {statement : Statement} {s : State σ} {stop : Stop} (runs : ¬ ctx.Aborted s)
    (stops : (Part.expr statement.expr).Stops ctx stop s) :
    ∃ u, runFrom s (Eval.statement ctx statement) = (.error stop, u) := by
  obtain ⟨u, stopped⟩ := stops
  cases statement with
  | expression e span => exact ⟨u, (runChecked runs).trans stopped⟩
  | assignment target value span => exact ⟨u, (runChecked runs).trans (runBindStopped stopped)⟩

theorem failSilent (silent : ∀ stop, ¬ ctx.Throws stop) (st : Stepper) (stop : Stop) (s : State σ) :
    (Stepper.fail ctx st stop s).1 = .error (ctx.answered stop) := by
  unfold Stepper.fail
  cases Stepper.tells ctx st.index stop with
  | event read tells =>
    rw [Context.answeredRead read, tells]
    split
    · rfl
    · split
      · rfl
      · rename_i told
        exact absurd (emitThrows told) (silent _)
  | unread there tells =>
    rw [Context.answeredUnread there, tells]
    rfl

theorem Stage.rejects {script : Script} {start s : State σ} {st : Stepper} {stop : Stop}
    (stage : Stage ctx script start st s) (going : st.done = false)
    (failed : (Stepper.step ctx st s).1 = .error stop) :
    (Run.execute ctx script start).1 = .error stop := by
  obtain ⟨statement, rest, left⟩ := List.exists_cons_of_ne_nil (stage.left going)
  rcases stepped : Stepper.step ctx st s with ⟨answer, st', t⟩
  rw [stepped] at failed
  obtain rfl : answer = .error stop := failed
  have steps := stage.stepAll
  rw [left, List.length_cons, Stepper.stepAll, going, stepped] at steps
  unfold Run.execute
  dsimp only [Stepper.ofScript] at steps ⊢
  rw [steps]
  cases stop <;> rfl

theorem RunBegins.stops (silent : ∀ stop, ¬ ctx.Throws stop) {script : Script} {start t : State σ}
    {i : Nat} {d : Expr} {stop : Stop} (begins : RunBegins ctx script start i d t)
    (stops : (Part.expr d).Stops ctx stop t) :
    (Run.execute ctx script start).1 = .error (ctx.answered stop) := by
  obtain ⟨statement, s, ⟨st, u, rest, stage, going, left, rfl, runs, started, running⟩, inside⟩ := begins
  obtain ⟨ended, stopped⟩ := statementStops running (inside.stops stops)
  have pending : ¬ (ctx.hasSignal && u.store.aborted) = true := runs
  refine stage.rejects going ?_
  simp only [Stepper.step, going, left, if_neg pending, started, stopped]
  exact failSilent silent st stop ended

section

end

end SeqScript
