import SeqScript.Proofs.Run.FailedSteps

/-! Scripts that a host steps through to their end. A host that calls a stepper as long as it is not
done comes to the outcome of the run of the script, and to its last state. Only a script without
statements tells the two apart: its stepper is done before any call, and freezes nothing. -/
namespace SeqScript
open Stepper (runFrom)

variable {σ : Type} {ctx : Context σ}

inductive SteppedOut (ctx : Context σ) :
    Stepper → State σ → Except Stop RunResult → State σ → Prop where
  | done {st s} (isDone : st.done = true) : SteppedOut ctx st s (st.result s.store) s
  | failed {st s stop st' t} (going : st.done = false)
      (fails : Stepper.step ctx st s = (.error stop, st', t)) : SteppedOut ctx st s (.error stop) t
  | next {st s answer st' t outcome u} (going : st.done = false)
      (stepped : Stepper.step ctx st s = (.ok answer, st', t))
      (others : SteppedOut ctx st' t outcome u) : SteppedOut ctx st s outcome u

def Context.LetsStart (ctx : Context σ) : Prop :=
  ∀ listener e s, ctx.listener .stepStart = some listener → (listener e s).1 = none

structure State.Same (s t : State σ) : Prop where
  trace : s.trace = t.trace
  bindings : s.store.bindings = t.store.bindings
  objects : s.store.heap.objects = t.store.heap.objects
  domains : s.store.heap.domains = t.store.heap.domains
  frozen : ∀ d, s.store.heap.isFrozen d = t.store.heap.isFrozen d
  aborted : s.store.aborted = t.store.aborted
  host : s.store.host = t.store.host

theorem State.Same.refl (s : State σ) : s.Same s := ⟨rfl, rfl, rfl, rfl, fun _ => rfl, rfl, rfl⟩

theorem freezeAgain {d : Domain} {s : State σ} (frozen : s.store.heap.isFrozen d = true) :
    (Stepper.freeze d s).Same s where
  trace := rfl
  bindings := rfl
  objects := rfl
  domains := rfl
  frozen e := by
    simp only [Heap.isFrozen, decide_eq_true_eq] at frozen
    by_cases same : e = d
    · simp [Stepper.freeze, Heap.freeze, Heap.isFrozen, same, frozen]
    · simp [Stepper.freeze, Heap.freeze, Heap.isFrozen, same]
  aborted := rfl
  host := rfl

theorem emitGoesOn {kind : EventKind}
    (lets : ∀ listener e s, ctx.listener kind = some listener → (listener e s).1 = none) {e : Event}
    {s t : State σ} {stop : Stop} : runFrom s (Eval.emit ctx kind e) ≠ (.error stop, t) := by
  intro refused
  have heard : Ensures s (Eval.emit ctx kind e) (fun _ _ => True) fun _ _ => False :=
    Eval.ensuresEmit (fun _ => trivial) (fun _ _ _ => trivial) fun listener stop there stops => by
      rw [lets listener _ _ there] at stops
      cases stops
  exact heard.onStopped refused

namespace SteppedOut

theorem unique {st : Stepper} {s t t' : State σ} {outcome outcome' : Except Stop RunResult}
    (first : SteppedOut ctx st s outcome t) (second : SteppedOut ctx st s outcome' t') :
    outcome' = outcome ∧ t' = t := by
  induction first with
  | done isDone =>
    cases second with
    | done => exact ⟨rfl, rfl⟩
    | failed going | next going => rw [isDone] at going; cases going
  | failed going fails =>
    cases second with
    | done isDone => rw [isDone] at going; cases going
    | failed _ fails' => cases fails.symm.trans fails'; exact ⟨rfl, rfl⟩
    | next _ stepped => cases fails.symm.trans stepped
  | next going stepped _ ih =>
    cases second with
    | done isDone => rw [isDone] at going; cases going
    | failed _ fails => cases stepped.symm.trans fails
    | next _ stepped' others =>
      cases stepped.symm.trans stepped'
      exact ih others

theorem failsFrozen (keeping : ctx.KeepsHeap) (lets : ctx.LetsStart) {st st' : Stepper}
    {s t : State σ} {stop : Stop} (fails : Stepper.step ctx st s = (.error stop, st', t))
    (ends : stop ≠ .stalled) : t.store.heap.isFrozen ctx.domain = true := by
  obtain ⟨going, statement, rest, left⟩ := failedLeft fails
  have answers : (Except.error stop : Except Stop StepResult) ≠ .error .stalled :=
    fun same => ends (Except.error.inj same)
  have run : StepRun ctx st statement rest s (Stepper.step ctx st s) := stepRuns going left s
  rw [fails] at run
  cases run with
  | aborted => exact freezeFrozen _ _
  | unstarted _ started => exact absurd started (emitGoesOn lets)
  | stopped _ _ _ failed => exact (failFinal failed answers).2 keeping
  | unended _ _ _ _ failed => exact (failFinal failed answers).2 keeping

theorem frozen (keeping : ctx.KeepsHeap) (lets : ctx.LetsStart) {st : Stepper} {s t : State σ}
    {outcome : Except Stop RunResult} (out : SteppedOut ctx st s outcome t)
    (ready : st.done = st.remaining.isEmpty) (left : st.remaining ≠ [])
    (ends : outcome ≠ .error .stalled) : t.store.heap.isFrozen ctx.domain = true := by
  induction out with
  | done isDone =>
    rw [isDone] at ready
    exact absurd (List.isEmpty_iff.mp ready.symm) left
  | failed going fails =>
    exact failsFrozen keeping lets fails fun same => ends (congrArg Except.error same)
  | next going stepped others ih =>
    obtain ⟨statement, rest, _, _, _, x, remaining, _, _, _, _, rfl, rfl⟩ :=
      stepSucceeds going left stepped
    cases rest with
    | cons => exact ih rfl (List.cons_ne_nil _ _) ends
    | nil =>
      -- The last statement has frozen the domain, and no call follows.
      cases others with
      | done => exact freezeFrozen _ x
      | failed going | next going => cases going

theorem ofStepAll {st : Stepper} (ready : st.done = st.remaining.isEmpty) (s : State σ) :
    SteppedOut ctx st s
      ((Stepper.stepAll ctx st.remaining.length st s).1.bind fun _ =>
        (Stepper.stepAll ctx st.remaining.length st s).2.1.result
          (Stepper.stepAll ctx st.remaining.length st s).2.2.store)
      (Stepper.stepAll ctx st.remaining.length st s).2.2 := by
  induction same : st.remaining generalizing st s with
  | nil =>
    rw [same] at ready
    exact .done ready
  | cons statement rest ih =>
    have going : st.done = false := by rw [ready, same]; rfl
    have left : st.remaining ≠ [] := by rw [same]; exact List.cons_ne_nil _ _
    rw [List.length_cons, Stepper.stepAll, going]
    rcases stepped : Stepper.step ctx st s with ⟨stop | answer, st', t⟩
    · exact .failed going stepped
    · obtain ⟨_, _, _, _, _, _, remaining, _, _, _, _, rfl, rfl⟩ := stepSucceeds going left stepped
      obtain ⟨rfl, rfl⟩ := List.cons.inj (same.symm.trans remaining)
      exact .next going stepped (ih rfl _ rfl)

end SteppedOut

/- Stepping out a script and running it have the same outcome. They leave the same state behind if
the script has statements; if it has none, only the run freezes the domain. -/
theorem steppedOutExecuted (keeping : ctx.KeepsHeap) (lets : ctx.LetsStart) (script : Script)
    (s : State σ) :
    ∃ outcome t, SteppedOut ctx (.ofScript script) s outcome t ∧
      (∀ outcome' t', SteppedOut ctx (.ofScript script) s outcome' t' →
        outcome' = outcome ∧ t' = t) ∧
      (Run.execute ctx script s).1 = outcome ∧
      (script.statements ≠ [] → (Run.execute ctx script s).2.Same t) ∧
      (script.statements = [] → t = s ∧
        (Run.execute ctx script s).2 = Stepper.freeze ctx.domain s) := by
  have ready : (Stepper.ofScript script).done = (Stepper.ofScript script).remaining.isEmpty := rfl
  have out : SteppedOut ctx (.ofScript script) s _ _ := .ofStepAll ready s
  refine ⟨_, _, out, fun _ _ other => out.unique other, ?_, fun nonempty => ?_, fun none => ?_⟩
  · unfold Run.execute
    dsimp only
    split <;> rename_i ran <;> rw [ran] <;> rfl
  · have frozen := out.frozen keeping lets ready nonempty
    unfold Run.execute
    dsimp only
    split <;> rename_i ran <;> rw [ran] at frozen ⊢
    · exact .refl _
    · rename_i ends
      exact freezeAgain (frozen fun same => ends (Except.error.inj same))
    · exact freezeAgain (frozen RunResult.collectEnds)
  · have remaining : (Stepper.ofScript script).remaining = [] := none
    rw [Run.execute, remaining]
    exact ⟨rfl, rfl⟩

theorem unknownNameSteppedOut :
    Stepper.watched.KeepsHeap ∧ Stepper.watched.LetsStart ∧ Stepper.callAndName.statements ≠ [] ∧
      ∃ t, SteppedOut Stepper.watched (.ofScript Stepper.callAndName) blank
          (.error Stepper.unknownY) t ∧
        (Run.execute Stepper.watched Stepper.callAndName blank).1 = .error Stepper.unknownY ∧
        (Run.execute Stepper.watched Stepper.callAndName blank).2.Same t := by
  have keeping : Stepper.watched.KeepsHeap := {
    host := fun name f call s there => (plainOrderly 0).keepsHeap.host name f call s there
    listener := fun kind listener e s there => by
      cases there
      exact .refl s.heap }
  have lets : Stepper.watched.LetsStart := fun listener e s there => by
    cases there
    rfl
  have nonempty : Stepper.callAndName.statements ≠ [] := List.cons_ne_nil _ _
  obtain ⟨outcome, t, out, _, executed, same, _⟩ :=
    steppedOutExecuted keeping lets Stepper.callAndName blank
  have stops : (Run.execute Stepper.watched Stepper.callAndName blank).1 =
      .error Stepper.unknownY := rfl
  rw [← executed, stops] at out
  exact ⟨keeping, lets, nonempty, t, out, stops, same nonempty⟩

theorem emptyScriptLeftOpen :
    ∃ outcome, SteppedOut (Context.plain 0) (.ofScript ⟨[], .synthetic⟩) blank outcome blank ∧
      (Run.execute (Context.plain 0) ⟨[], .synthetic⟩ blank).1 = outcome ∧
      blank.store.heap.isFrozen 0 = false ∧
      (Run.execute (Context.plain 0) ⟨[], .synthetic⟩ blank).2.store.heap.isFrozen 0 = true :=
  ⟨_, .done rfl, rfl, rfl, rfl⟩

end SeqScript
