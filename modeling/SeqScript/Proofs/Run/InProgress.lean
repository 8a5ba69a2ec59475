import SeqScript.Proofs.Run.Aborts

/-! Behind an abort a run only ends what is in progress. The steps of a run come to what its record
says, so that what is true of the record is true of the run. -/
namespace SeqScript
open Stepper (runFrom step fail stepAll)

variable {σ : Type}

structure Answers (ctx : Context σ) (stop : Stop) (t : State σ) (other : Stop) (u : State σ) : Prop where
  reason : other = ctx.answered stop ∨ ctx.Throws other
  waits : other = .stalled →
    stop = .stalled ∧ u = t ∨ ctx.Gives .stalled ∨ ctx.Gives (.unreadable .stalled)

variable {ctx : Context σ}

theorem Answers.itself {stop : Stop} {t u : State σ} (same : ctx.answered stop = stop)
    (waits : stop = .stalled → u = t) : Answers ctx stop t stop u :=
  ⟨.inl same.symm, fun stalled => .inl ⟨stalled, waits stalled⟩⟩

namespace Eval

def turn (ctx : Context σ) (i total : Nat) (s : Statement) : Eval σ Value := do
  checkAborted ctx s.span.location?
  emit ctx .stepStart (.stepStart i total)
  let v ← statement ctx s
  emit ctx .stepEnd (.stepEnd i total v)
  return v

end Eval

theorem Erases.turn (i total : Nat) (s : Statement) :
    Erases (Timed.turn ctx i total s) (Eval.turn ctx i total s) :=
  bind (part [i] _) fun _ => bind (part [i] _) fun _ => bind (statement i s) fun v =>
    bind (part [i] _) fun _ => pure v

inductive StepEnds (ctx : Context σ) (st : Stepper) (rest : List Statement) :
    Except Stop Value → State σ → Except Stop StepResult × Stepper × State σ → Prop where
  | valued (v : Value) (t : State σ) :
      StepEnds ctx st rest (.ok v) t (.ok ⟨v, rest.isEmpty, st.index, st.total⟩,
        { st with remaining := rest, index := st.index + 1, lastValue := v, done := rest.isEmpty },
        if rest.isEmpty then Stepper.freeze ctx.domain t else t)
  | stopped {stop : Stop} {t : State σ} {other : Stop} {u : State σ} (st' : Stepper)
      (answers : Answers ctx stop t other u) :
      StepEnds ctx st rest (.error stop) t (.error other, st', u)

theorem failEnds (st st' : Stepper) (rest : List Statement) {stop : Stop} (t : State σ)
    (given : ∀ instead, stop = .unreadable instead → ctx.Gives stop) :
    StepEnds ctx st rest (.error stop) t (fail ctx st' stop t) := by
  unfold fail
  split
  · rename_i stalled
    exact .stopped st' (.itself (stalled ▸ Context.answeredRead fun _ => rfl) fun _ => rfl)
  · rename_i ends
    cases Stepper.tells ctx st'.index stop with
    | event read tells =>
      rw [tells]
      split
      · exact .stopped st'.finished
          (.itself (Context.answeredRead read) fun stalled => absurd stalled ends)
      · rename_i other u failed
        have throws : ctx.Throws other := emitThrows failed
        exact .stopped st'.finished ⟨.inr throws, fun stalled => .inr (.inl (stalled ▸ throws.gives))⟩
    | @unread instead there tells =>
      rw [tells]
      exact .stopped st'.finished ⟨.inl (Context.answeredUnread there).symm,
        fun stalled => .inr (.inr (stalled ▸ given instead rfl))⟩

theorem stepEnds {st : Stepper} {statement : Statement}
    {rest : List Statement} (going : st.done = false) (left : st.remaining = statement :: rest)
    {s t : State σ} {outcome : Except Stop Value}
    (ran : runFrom s (Eval.turn ctx st.index st.total statement) = (outcome, t)) :
    StepEnds ctx st rest outcome t (step ctx st s) := by
  have run : StepRun ctx st statement rest s (step ctx st s) := stepRuns going left s
  generalize step ctx st s = made at run
  unfold Eval.turn at ran
  cases run with
  | aborted pending =>
    rw [runBindStopped (checkStops pending _)] at ran
    cases ran
    exact .stopped st.finished (.itself (Context.answeredRead fun _ => rfl) nofun)
  | unstarted running started =>
    rw [runBind (checkPasses running _), runBindStopped started] at ran
    cases ran
    exact .stopped st ⟨.inr (emitThrows started), fun stalled => .inl ⟨stalled, rfl⟩⟩
  | stopped running started stopped fails =>
    rw [runBind (checkPasses running _), runBind started, runBindStopped stopped] at ran
    cases ran
    rw [← fails]
    exact failEnds st _ rest t fun instead same => same ▸ Eval.statementUnread (same ▸ stopped)
  | unended running started valued told fails =>
    rw [runBind (checkPasses running _), runBind started, runBind valued, runBindStopped told] at ran
    cases ran
    rw [← fails]
    exact failEnds st _ rest t fun _ _ => emitGiven told
  | valued running started valued told =>
    rw [runBind (checkPasses running _), runBind started, runBind valued, runBind told] at ran
    cases ran
    exact .valued _ _

inductive RunEnds (ctx : Context σ) {α β : Type} :
    Except Stop α → State σ → Except Stop β → State σ → Prop where
  | valued (a : α) (b : β) (t u : State σ) : RunEnds ctx (.ok a) t (.ok b) u
  | stopped {stop : Stop} {t : State σ} {other : Stop} {u : State σ}
      (answers : Answers ctx stop t other u) : RunEnds ctx (.error stop) t (.error other) u
  | refused (a : α) (t : State σ) {kind : SequenceKind} {name : Text} {u : State σ}
      (blocks : Bindings.Blocks u.store.heap u.store.bindings kind name) :
      RunEnds ctx (.ok a) t (.error (RunResult.refused kind name)) u

namespace RunEnds

variable {α β : Type} {outcome : Except Stop α} {t u : State σ}

theorem resolved {b : β} (ends : RunEnds ctx outcome t (.ok b) u) : ∃ a, outcome = .ok a := by
  cases ends with
  | valued a => exact ⟨a, rfl⟩

theorem rejected {other : Stop} (ends : RunEnds ctx outcome t (.error other : Except Stop β) u) :
    (∃ stop, outcome = .error stop ∧ Answers ctx stop t other u) ∨
      ∃ a kind name, outcome = .ok a ∧ other = RunResult.refused kind name ∧
        Bindings.Blocks u.store.heap u.store.bindings kind name := by
  cases ends with
  | stopped answers => exact .inl ⟨_, rfl, answers⟩
  | refused a _ blocks => exact .inr ⟨a, _, _, rfl, rfl, blocks⟩

end RunEnds

theorem stepAllEnds {ss : List Statement} (st : Stepper)
    (left : st.remaining = ss) (going : st.done = ss.isEmpty) (s : State σ) :
    RunEnds ctx (Timed.turns ctx st.index st.total ss s).1 (Timed.turns ctx st.index st.total ss s).2.1
      (stepAll ctx ss.length st s).1 (stepAll ctx ss.length st s).2.2 := by
  induction ss generalizing st s with
  | nil => exact .valued () () s s
  | cons statement rest ih =>
    rcases turned : Timed.turn ctx st.index st.total statement s with ⟨outcome, t, ticks⟩
    have ran : runFrom s (Eval.turn ctx st.index st.total statement) = (outcome, t) := by
      rw [Erases.turn st.index st.total statement s, turned]
    have ends := stepEnds going left ran
    have isGoing : ¬ st.done = true := by
      rw [going]
      exact Bool.false_ne_true
    rw [List.length_cons, stepAll, if_neg isGoing, Timed.turns]
    generalize step ctx st s = made at ends
    cases ends with
    | stopped st' answers =>
      rw [Timed.bindStopped turned]
      exact .stopped answers
    | valued v =>
      rw [Timed.bindRan turned]
      cases rest with
      | nil => exact .valued () () t _
      | cons next rest =>
        let following : Stepper :=
          { st with remaining := next :: rest, index := st.index + 1, lastValue := v, done := false }
        exact ih following rfl rfl t

theorem executeEnds (ctx : Context σ) (script : Script) (s : State σ) :
    RunEnds ctx (Timed.script ctx script s).1 (Timed.script ctx script s).2.1
      (Run.execute ctx script s).1 (Run.execute ctx script s).2 := by
  have ends : RunEnds ctx (Timed.script ctx script s).1 (Timed.script ctx script s).2.1
      (stepAll ctx script.statements.length (.ofScript script) s).1
      (stepAll ctx script.statements.length (.ofScript script) s).2.2 :=
    stepAllEnds (.ofScript script) rfl rfl s
  unfold Run.execute
  dsimp only
  have left : (Stepper.ofScript script).remaining.length = script.statements.length := rfl
  rw [left]
  generalize stepAll ctx script.statements.length (.ofScript script) s = made at ends
  generalize Timed.script ctx script s = timed at ends
  obtain ⟨outcome, st, t⟩ := made
  obtain ⟨expected, u, ticks⟩ := timed
  cases ends with
  | valued a =>
    cases collected : st.result t.store with
    | ok result =>
      simp only [collected]
      exact .valued a result u _
    | error stop =>
      obtain ⟨kind, name, rfl, blocks⟩ := RunResult.collectBlocked collected
      simp only [collected]
      exact .refused a u blocks
  | stopped answers =>
    rename_i stop other
    cases other with
    | stalled => exact .stopped answers
    | _ => exact .stopped ⟨answers.reason, nofun⟩
  | refused a _ blocks => exact .refused a _ blocks

structure Parted (ctx : Context σ) (script : Script) (s : State σ) (early behind : List Tick) : Prop where
  whole : (Timed.script ctx script s).2.2 = early ++ behind
  running : ∀ x ∈ early, x.late = false
  pending : ∀ x ∈ behind, x.late = true
  -- No statement, node or element, and no variable is read.
  starts : ∀ x ∈ behind, ¬ x.moment.Starts
  -- No operation is carried out and no function is called, except behind all of the parts.
  acts : ∀ x ∈ behind, ∀ q nodes, x.moment = .acts q nodes → ∀ r ∈ nodes, Begun early r
  resolves : ∀ result, (Run.execute ctx script s).1 = .ok result →
    ∀ r ∈ script.places, Begun early r
  rejects : ∀ stop, (Run.execute ctx script s).1 = .error stop →
    (∃ xs q reason late, (Timed.script ctx script s).2.2 = xs ++ [⟨.stops q reason, late⟩] ∧
      (reason.IsAbort ∨ ctx.Throws reason ∨ Begun early q) ∧
      (stop = ctx.answered reason ∨ ctx.Throws stop)) ∨
    (∀ r ∈ script.places, Begun early r) ∧ ∃ kind name, stop = RunResult.refused kind name ∧
      Bindings.Blocks (Run.execute ctx script s).2.store.heap
        (Run.execute ctx script s).2.store.bindings kind name
  waits : (Run.execute ctx script s).1 = .error .stalled → ctx.CanWait (Run.execute ctx script s).2

theorem begunEarly {early behind : List Tick} (starts : ∀ x ∈ behind, ¬ x.moment.Starts) {r : Place}
    (begun : Begun (early ++ behind) r) : Begun early r := by
  rcases Begun.append.mp begun with first | ⟨x, member, begins⟩
  · exact first
  · have starting : x.moment.Starts := begins ▸ trivial
    exact absurd starting (starts x member)

/- The record of a run is one of its evaluations, and the run ends as its record says. Whenever an
abort comes up, it comes between two parts of the record. Nothing starts behind it; what a node does
there it does behind all of its parts, which had begun before. The run has a result only if all of its
nodes had begun. Otherwise it is rejected by the abort, or by what a node had raised that had begun
before, unless a listener throws or would be told of what has no text; or all nodes had begun, and a
variable has no place in the result. With an abort pending it does not wait for ever by itself. -/
theorem Run.onlyInProgress (signals : ctx.Signals) (script : Script) (s : State σ) :
    (∀ i statement, Erases (Timed.statement ctx i statement) (Eval.statement ctx statement)) ∧
      RunEnds ctx (Timed.script ctx script s).1 (Timed.script ctx script s).2.1
        (execute ctx script s).1 (execute ctx script s).2 ∧
      ∃ early behind, Parted ctx script s early behind := by
  have timely : Timely ctx [] script.places (Timed.script ctx script) := .turns signals [] 0 _ _
  have fine := timely s
  have ends := executeEnds ctx script s
  refine ⟨Erases.statement, ends, ?_⟩
  obtain ⟨early, behind, whole, running, pending⟩ := fine.flows.split
  have inside {x : Tick} (member : x ∈ behind) : x ∈ (Timed.script ctx script s).2.2 :=
    whole ▸ List.mem_append_right early member
  have starts (x : Tick) (member : x ∈ behind) : ¬ x.moment.Starts := fun starting => by
    have running := fine.starts x (inside member) starting
    rw [pending x member] at running
    cases running
  have before {r : Place} (begun : Begun (Timed.script ctx script s).2.2 r) : Begun early r :=
    begunEarly starts (whole ▸ begun)
  refine ⟨early, behind, whole, running, pending, starts, fun x member q nodes acts r part => ?_,
    fun result done r node => ?_, fun stop failed => ?_, fun stalled => ?_⟩
  · rcases fine.acts x (inside member) q nodes acts r part with known | begun
    · cases known
    · exact before begun
  · rw [done] at ends
    obtain ⟨a, valued⟩ := ends.resolved
    exact before (fine.covered a valued r node)
  · rw [failed] at ends
    rcases ends.rejected with ⟨reason, stopped, answers⟩ | ⟨a, kind, name, valued, refused⟩
    case inr => exact .inr ⟨fun r node => before (fine.covered a valued r node), kind, name, refused⟩
    obtain ⟨xs, q, late, last, origin⟩ := fine.stopped reason stopped
    refine .inl ⟨xs, q, reason, late, last, ?_, answers.reason⟩
    rcases origin with aborts | throws | known | begun
    · exact .inl aborts
    · exact .inr (.inl throws)
    · cases known
    · refine .inr (.inr (before ?_))
      rw [last]
      exact Begun.append.mpr (.inl begun)
  · rw [stalled] at ends
    rcases ends.rejected with ⟨reason, stopped, answers⟩ | ⟨_, _, _, _, refused, _⟩
    case inr => cases refused
    rcases answers.waits rfl with ⟨same, last⟩ | given
    · rw [last]
      exact fine.waits (same ▸ stopped)
    · exact .inr given

section

def abort : HostFunction Unit := fun _ s => (.value .none, { s with aborted := true })

def signalled : Context Unit :=
  { Context.plain 0 with functions := Context.functionsWith [(text "stop", abort)], hasSignal := true }

def stopAndName : Script :=
  ⟨[.expression (.sequence .list [some (.call (text "stop") [] .synthetic)] .synthetic) .synthetic,
    .expression (.name (text "x") .synthetic) .synthetic], .synthetic⟩

def unstarted : State Unit := ⟨⟨⟨#[], 0, []⟩, [(text "x", .none)], false, ()⟩, []⟩

theorem signalledHost {name : Text} {f : HostFunction Unit}
    (there : signalled.functions.get? name = some (.host f)) : f = abort := by
  have seeded : signalled.functions = Context.functionsWith [(text "stop", abort)] := rfl
  exact Context.hostFound there seeded

theorem signalledSignals : signalled.Signals where
  hostKeeps call s there _ := by
    cases signalledHost there
    rfl
  listenerKeeps e s there := by cases there

theorem Run.nameNotRead : signalled.Signals ∧
    (execute signalled stopAndName unstarted).1 = .error (.fault ⟨.aborted, none⟩) ∧
    (Timed.script signalled stopAndName unstarted).2.2 =
      [⟨.begins [0], false⟩, ⟨.begins [0, 0], false⟩, ⟨.takesUp [0, 0, 0], false⟩,
        ⟨.begins [0, 0, 0], false⟩, ⟨.acts [0, 0, 0] [[0, 0, 0]], false⟩,
        ⟨.acts [0, 0] [[0, 0], [0, 0, 0]], true⟩, ⟨.stops [1] (.fault ⟨.aborted, none⟩), true⟩] ∧
    ∃ early behind, Parted signalled stopAndName unstarted early behind :=
  ⟨signalledSignals, rfl, rfl, (onlyInProgress signalledSignals stopAndName unstarted).2.2⟩

def stopBehindTuple : Script :=
  ⟨takesLength.take 1 ++ [.assignment (text "length") (.call (text "stop") [] .synthetic) .synthetic],
    .synthetic⟩

def abortUnread : HostFunction Unit := fun _ s => (.raised (.unreadable noText), { s with aborted := true })

def signalledTold : Context Unit :=
  { signalled with
    functions := Context.functionsWith [(text "stop", abortUnread)]
    listener := fun kind => if kind = .failed then some fun _ s => (none, s) else none }

/- The call in which the abort comes is the last node of the script, and yet the run has no result; and
what the call raises is not what the run is rejected by. -/
theorem Run.noResultBehindAbort :
    ((execute signalled stopBehindTuple unstarted).1 =
        .error (RunResult.refused .tuple (text "length")) ∧
      (Timed.script signalled stopBehindTuple unstarted).1 = .ok ()) ∧
    (∀ stop, ¬ signalledTold.Throws stop) ∧
    (execute signalledTold stopAndName unstarted).1 = .error noText ∧
    (Timed.script signalledTold stopAndName unstarted).1 = .error (.unreadable noText) := by
  refine ⟨⟨rfl, rfl⟩, ?_, rfl, rfl⟩
  rintro stop ⟨kind, listener, e, s, there, stops⟩
  cases kind <;> cases there
  cases stops

end

end SeqScript
