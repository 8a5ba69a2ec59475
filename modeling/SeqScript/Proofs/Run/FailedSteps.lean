import SeqScript.Proofs.Run.Freezing
import SeqScript.Proofs.Run.Protocol

/-! Steps that fail. A step that fails in its statement, in a host function, in a listener or for an
abort leaves its stepper done and its domain frozen, and nothing happens in later steps. The one
exception is the listener of the step's start: what it refuses has not begun, and the stepper goes on
as if it had not been called. -/
namespace SeqScript
open Stepper (runFrom)

variable {σ : Type} {ctx : Context σ}

theorem freezeFrozen (d : Domain) (s : State σ) :
    (Stepper.freeze d s).store.heap.isFrozen d = true := by
  simp [Stepper.freeze, Heap.freeze, Heap.isFrozen]

theorem failFinal {st st' : Stepper} {stop : Stop} {s s' : State σ} {answer : Except Stop StepResult}
    (fails : Stepper.fail ctx st stop s = (answer, st', s')) (ends : answer ≠ .error .stalled) :
    st'.done = true ∧ (ctx.KeepsHeap → s'.store.heap.isFrozen ctx.domain = true) := by
  have told := (advancesCarried ctx).tellFailed st.index stop (Stepper.freeze ctx.domain s)
  unfold Stepper.fail at fails
  split at fails
  · rename_i stalled
    cases fails
    rw [stalled] at ends
    exact absurd rfl ends
  -- Listeners are told of the failure behind the freezing, and thaw nothing.
  · split at fails <;> rename_i ran <;> rw [ran] at told <;> cases fails <;>
      exact ⟨rfl, fun keeping => (told.keeps keeping).frozen _ (freezeFrozen _ s)⟩

def StartRefused (ctx : Context σ) (st : Stepper) (s : State σ) : Prop :=
  ¬ ctx.Aborted s ∧
    ∃ stop t, runFrom s (Eval.emit ctx .stepStart (.stepStart st.index st.total)) = (.error stop, t)

theorem callsStill (ctx : Context σ) {st : Stepper} (isDone : st.done = true)
    (acts : List (Store σ → Store σ)) (s : State σ) : ∀ c ∈ Stepper.calls ctx acts st s,
      c.answer = .ok ⟨st.lastValue, true, st.index, st.total⟩ ∧ c.stepper = st ∧
      c.after = Stepper.freeze ctx.domain c.before := by
  induction acts generalizing s with
  | nil => exact List.forall_mem_nil _
  | cons act acts ih =>
    have called : Stepper.call ctx st (s.acted act) = ⟨s.acted act,
        .ok ⟨st.lastValue, true, st.index, st.total⟩, st, Stepper.freeze ctx.domain (s.acted act)⟩ := by
      rw [Stepper.call, Stepper.idleStep ctx isDone]
      rfl
    rw [Stepper.callsOn called (fun same => by cases same)]
    exact List.forall_mem_cons.mpr ⟨⟨rfl, rfl, rfl⟩, ih _⟩

theorem failedLeft {st st' : Stepper} {s s' : State σ} {stop : Stop}
    (failed : Stepper.step ctx st s = (.error stop, st', s')) :
    st.done = false ∧ ∃ statement rest, st.remaining = statement :: rest := by
  rcases stepIdlesOrRuns failed with ⟨same, _⟩ | ⟨statement, rest, going, left, _⟩
  · cases same
  · exact ⟨going, statement, rest, left⟩

/- A step that fails is the last one, whatever a host does between its calls, unless the listener of
its start has refused it. Then the step has not begun, and the stepper is where it was. -/
theorem failedStepFinal (keeping : ctx.KeepsHeap) {st st' : Stepper} {s s' : State σ} {stop : Stop}
    (failed : Stepper.step ctx st s = (.error stop, st', s')) (ends : stop ≠ .stalled) :
    (¬ StartRefused ctx st s → st'.done = true ∧ s'.store.heap.isFrozen ctx.domain = true ∧
      ∀ acts, ∀ c ∈ Stepper.calls ctx acts st' s',
        c.answer = .ok ⟨st'.lastValue, true, st'.index, st'.total⟩ ∧ c.stepper = st' ∧
        c.after = Stepper.freeze ctx.domain c.before) ∧
    (StartRefused ctx st s → st' = st ∧ st'.done = false ∧
      runFrom s (Eval.emit ctx .stepStart (.stepStart st.index st.total)) = (.error stop, s')) := by
  have final (isDone : st'.done = true) (frozen : s'.store.heap.isFrozen ctx.domain = true) :=
    And.intro isDone (And.intro frozen fun acts => callsStill ctx isDone acts s')
  have answers : (Except.error stop : Except Stop StepResult) ≠ .error .stalled :=
    fun same => ends (Except.error.inj same)
  have begun {t : State σ} (started : runFrom s (Eval.emit ctx .stepStart
      (.stepStart st.index st.total)) = (.ok (), t)) : ¬ StartRefused ctx st s := by
    rintro ⟨_, _, _, refused⟩
    cases refused.symm.trans started
  obtain ⟨going, statement, rest, left⟩ := failedLeft failed
  have run : StepRun ctx st statement rest s (Stepper.step ctx st s) := stepRuns going left s
  rw [failed] at run
  cases run with
  | aborted pending =>
    exact ⟨fun _ => final rfl (freezeFrozen _ _), fun refused => absurd pending refused.1⟩
  | unstarted running started =>
    exact ⟨fun begun => absurd ⟨running, _, _, started⟩ begun, fun _ => ⟨rfl, going, started⟩⟩
  | stopped running started stopped fails =>
    obtain ⟨isDone, frozen⟩ := failFinal fails answers
    exact ⟨fun _ => final isDone (frozen keeping), fun refused => absurd refused (begun started)⟩
  | unended running started valued told fails =>
    obtain ⟨isDone, frozen⟩ := failFinal fails answers
    exact ⟨fun _ => final isDone (frozen keeping), fun refused => absurd refused (begun started)⟩

def xScript : Script := ⟨[.expression (.name (text "x") .synthetic) .synthetic], .synthetic⟩

theorem unboundStepFinal :
    ∃ stop st s, stop ≠ Stop.stalled ∧ (Context.plain 0 : Context Unit).KeepsHeap ∧
      ¬ StartRefused (Context.plain 0) (.ofScript xScript) blank ∧
      Stepper.step (Context.plain 0) (.ofScript xScript) blank = (.error stop, st, s) ∧
      st.done = true ∧ s.store.heap.isFrozen 0 = true ∧
      ∀ acts, ∀ c ∈ Stepper.calls (Context.plain 0) acts st s,
        c.answer = .ok ⟨st.lastValue, true, st.index, st.total⟩ ∧ c.stepper = st ∧
        c.after = Stepper.freeze 0 c.before := by
  have keeping := (plainOrderly 0).keepsHeap
  have begun : ¬ StartRefused (Context.plain 0) (.ofScript xScript) blank := by
    rintro ⟨_, _, _, refused⟩
    cases refused
  obtain ⟨st, s, failed⟩ : ∃ st s, Stepper.step (Context.plain 0) (.ofScript xScript) blank =
      (.error (.fault ⟨.undefinedVariable (text "x"), none⟩), st, s) := ⟨_, _, rfl⟩
  exact ⟨_, st, s, Stop.noConfusion, keeping, begun, failed,
    (failedStepFinal keeping failed Stop.noConfusion).1 begun⟩

def refuseFirst : Listener Nat := fun _ s =>
  (if s.host = 0 then some (.failure (text "Error") (text "boom")) else none, { s with host := s.host + 1 })

def refusing : Context Nat :=
  { Context.plain 0 with listener := fun kind => if kind = .stepStart then some refuseFirst else none }

def oneScript : Script := ⟨[.expression (.literal (.number (.ofNat 1)) .synthetic) .synthetic], .synthetic⟩

def counting : State Nat := ⟨⟨Heap.empty.newDomain.2, [], false, 0⟩, []⟩

/- The listener of the first step's start throws: the step fails, but the stepper is not done, its
domain is not frozen, and the next step tells of its start and runs the statement. -/
theorem refusedStepGoesOn :
    ∃ st s st' s', Stepper.step refusing (.ofScript oneScript) counting =
        (.error (.failure (text "Error") (text "boom")), st, s) ∧
      st.done = false ∧ s.store.heap.isFrozen refusing.domain = false ∧
      Stepper.step refusing st s = (.ok ⟨.number (.ofNat 1), true, 0, 1⟩, st', s') ∧
      s'.events = s.events ++ [.stepStart 0 1] :=
  ⟨_, _, _, _, rfl, rfl, rfl, rfl, rfl⟩

end SeqScript
