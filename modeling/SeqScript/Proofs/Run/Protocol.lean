import SeqScript.Proofs.Run.Recorded
import SeqScript.Proofs.Run.Results
import SeqScript.Proofs.Run.Stages

/-! What a host sees that steps through a script and watches everything. First come the statements
that have values, each between the two events of its step. Then there may be one step that does not
succeed, and behind it only steps that do nothing. -/
namespace SeqScript
open Stepper (runFrom)

variable {σ : Type}

structure Call (σ : Type) where
  before : State σ
  answer : Except Stop StepResult
  stepper : Stepper
  after : State σ

def Call.of (s : State σ) (result : Except Stop StepResult × Stepper × State σ) : Call σ :=
  ⟨s, result.1, result.2.1, result.2.2⟩

def State.acted (s : State σ) (act : Store σ → Store σ) : State σ := { s with store := act s.store }

namespace Stepper

variable (ctx : Context σ)

def call (st : Stepper) (s : State σ) : Call σ := .of s (step ctx st s)

/-- One call behind each act of the host. No call is made while one has not ended. -/
def calls : List (Store σ → Store σ) → Stepper → State σ → List (Call σ)
  | [], _, _ => []
  | act :: acts, st, s =>
    let made := call ctx st (s.acted act)
    match made.answer with
    | .error .stalled => [made]
    | _ => made :: calls acts made.stepper made.after

end Stepper

namespace Call

def lastStepper (st : Stepper) (calls : List (Call σ)) : Stepper :=
  calls.foldl (fun _ c => c.stepper) st

def lastState (s : State σ) (calls : List (Call σ)) : State σ := calls.foldl (fun _ c => c.after) s

structure Still (c : Call σ) : Prop where
  trace : c.after.trace = c.before.trace
  bindings : c.after.store.bindings = c.before.store.bindings
  objects : c.after.store.heap.objects = c.before.store.heap.objects
  host : c.after.store.host = c.before.store.host

end Call

structure Turn (σ : Type) where
  call : Call σ
  begun : State σ
  ended : State σ
  value : Value

namespace Turn

def told (total : Nat) (t : Turn σ) (i : Nat) : List Event :=
  .stepStart i total :: (t.begun.since t.ended ++ [.stepEnd i total t.value])

def lastValue (v : Value) (turns : List (Turn σ)) : Value := turns.foldl (fun _ t => t.value) v

structure Runs (ctx : Context σ) (script : Script) (i : Nat) (t : Turn σ) : Prop where
  running : ¬ ctx.Aborted t.call.before
  started : runFrom t.call.before
    (Eval.emit ctx .stepStart (.stepStart i script.statements.length)) = (.ok (), t.begun)
  valued : ∃ statement, script.statements[i]? = some statement ∧
    runFrom t.begun (Eval.statement ctx statement) = (.ok t.value, t.ended)
  inner : ∀ e ∈ t.begun.since t.ended, e.Inner
  answers : t.call.answer =
    .ok ⟨t.value, decide (i + 1 = script.statements.length), i, script.statements.length⟩

end Turn

structure StopsAt (ctx : Context σ) (script : Script) (i : Nat) (c : Call σ) (begun ended : State σ)
    (stop : Stop) : Prop where
  running : ¬ ctx.Aborted c.before
  started : runFrom c.before
    (Eval.emit ctx .stepStart (.stepStart i script.statements.length)) = (.ok (), begun)
  stopped : ∃ statement, script.statements[i]? = some statement ∧
    runFrom begun (Eval.statement ctx statement) = (.error stop, ended)
  inner : ∀ e ∈ begun.since ended, e.Inner
  answers : c.answer = .error (ctx.answered stop)

structure AbortedAt (ctx : Context σ) (script : Script) (i : Nat) (c : Call σ) : Prop where
  pending : ctx.Aborted c.before
  answers : ∃ statement, script.statements[i]? = some statement ∧
    c.answer = .error (.fault ⟨.aborted, statement.span.location?⟩)
  still : c.Still

structure Idle (script : Script) (m : Nat) (last : Value) (c : Call σ) : Prop where
  answers : c.answer = .ok ⟨last, true, m, script.statements.length⟩
  still : c.Still

/-- The calls behind the first ones, which have run that many statements, with the events that they
have told, and whether the stepper is done behind them. -/
inductive Rest (ctx : Context σ) (script : Script) (m : Nat) (last : Value) :
    List (Call σ) → List Event → Bool → Prop where
  | none (going : m < script.statements.length) : Rest ctx script m last [] [] false
  | completed {cs} (all : m = script.statements.length) (idle : ∀ c ∈ cs, Idle script m last c) :
      Rest ctx script m last cs [] true
  | aborted {c cs} (aborts : AbortedAt ctx script m c) (idle : ∀ c ∈ cs, Idle script m last c) :
      Rest ctx script m last (c :: cs) [] true
  | rejected {c cs begun ended stop} (stops : StopsAt ctx script m c begun ended stop)
      (read : stop.unread? = none) (ends : stop ≠ .stalled) (idle : ∀ c ∈ cs, Idle script m last c) :
      Rest ctx script m last (c :: cs)
        (.stepStart m script.statements.length :: (begun.since ended ++ [.failed m stop])) true
  -- A reason without a text is never told: what its reading throws is answered in its place.
  | unread {c cs begun ended instead}
      (stops : StopsAt ctx script m c begun ended (.unreadable instead))
      (idle : ∀ c ∈ cs, Idle script m last c) (stuck : instead = .stalled → cs = []) :
      Rest ctx script m last (c :: cs)
        (.stepStart m script.statements.length :: begun.since ended) true
  | hangs {c begun ended} (stops : StopsAt ctx script m c begun ended .stalled) :
      Rest ctx script m last [c] (.stepStart m script.statements.length :: begun.since ended) false

variable {ctx : Context σ}

namespace Stepper

theorem callsOn {st : Stepper} {s : State σ} {act : Store σ → Store σ} {c : Call σ}
    (made : call ctx st (s.acted act) = c) (ends : c.answer ≠ .error .stalled)
    (acts : List (Store σ → Store σ)) :
    calls ctx (act :: acts) st s = c :: calls ctx acts c.stepper c.after := by
  simp only [calls, made]

theorem callsStuck {st : Stepper} {s : State σ} {act : Store σ → Store σ} {c : Call σ}
    (made : call ctx st (s.acted act) = c) (stalled : c.answer = .error .stalled)
    (acts : List (Store σ → Store σ)) : calls ctx (act :: acts) st s = [c] := by
  simp only [calls, made, stalled]

theorem freezeStill (d : Domain) (c : Call σ) (same : c.after = freeze d c.before) : c.Still := by
  constructor <;> rw [same] <;> rfl

theorem idleStep (ctx : Context σ) {st : Stepper} (isDone : st.done = true) (s : State σ) :
    step ctx st s = (.ok ⟨st.lastValue, true, st.index, st.total⟩, st, freeze ctx.domain s) := by
  have same : st.finished = st := by
    cases st
    cases isDone
    rfl
  unfold step
  split
  · rename_i going _
    rw [isDone] at going
    cases going
  · rw [same]

theorem callsIdle (ctx : Context σ) {script : Script} {st : Stepper} (isDone : st.done = true)
    (total : st.total = script.statements.length) (acts : List (Store σ → Store σ)) (s : State σ) :
    (∀ c ∈ calls ctx acts st s, Idle script st.index st.lastValue c) ∧
      Call.lastStepper st (calls ctx acts st s) = st ∧
      (Call.lastState s (calls ctx acts st s)).events = s.events := by
  induction acts generalizing s with
  | nil => exact ⟨List.forall_mem_nil _, rfl, rfl⟩
  | cons act acts ih =>
    obtain ⟨idle, stepper, events⟩ := ih (freeze ctx.domain (s.acted act))
    have made := idleStep ctx isDone (s.acted act)
    have called : call ctx st (s.acted act) = ⟨s.acted act,
        .ok ⟨st.lastValue, true, st.index, st.total⟩, st, freeze ctx.domain (s.acted act)⟩ := by
      rw [call, made]
      rfl
    rw [callsOn called nofun]
    refine ⟨List.forall_mem_cons.mpr ⟨⟨?_, ?_⟩, idle⟩, stepper, events⟩
    · rw [← total]
    · exact freezeStill ctx.domain _ rfl

inductive Outcome (ctx : Context σ) (st : Stepper) (statement : Statement) (rest : List Statement)
    (s : State σ) : Call σ → Prop where
  | aborted (pending : ctx.Aborted s) :
      Outcome ctx st statement rest s
        ⟨s, .error (.fault ⟨.aborted, statement.span.location?⟩), st.finished, freeze ctx.domain s⟩
  | valued {begun v ended t} (running : ¬ ctx.Aborted s)
      (started : runFrom s (Eval.emit ctx .stepStart (.stepStart st.index st.total)) = (.ok (), begun))
      (valued : runFrom begun (Eval.statement ctx statement) = (.ok v, ended))
      (told : t.events =
        s.events ++ .stepStart st.index st.total :: (begun.since ended ++ [.stepEnd st.index st.total v]))
      (inner : ∀ e ∈ begun.since ended, e.Inner) :
      Outcome ctx st statement rest s ⟨s, .ok ⟨v, rest.isEmpty, st.index, st.total⟩,
        { st with remaining := rest, index := st.index + 1, lastValue := v, done := rest.isEmpty }, t⟩
  | rejected {begun stop ended t} (running : ¬ ctx.Aborted s)
      (started : runFrom s (Eval.emit ctx .stepStart (.stepStart st.index st.total)) = (.ok (), begun))
      (stopped : runFrom begun (Eval.statement ctx statement) = (.error stop, ended))
      (read : stop.unread? = none) (ends : stop ≠ .stalled)
      (told : t.events =
        s.events ++ .stepStart st.index st.total :: (begun.since ended ++ [.failed st.index stop]))
      (inner : ∀ e ∈ begun.since ended, e.Inner) :
      Outcome ctx st statement rest s ⟨s, .error stop, st.finished, t⟩
  | unread {begun instead ended} (running : ¬ ctx.Aborted s)
      (started : runFrom s (Eval.emit ctx .stepStart (.stepStart st.index st.total)) = (.ok (), begun))
      (stopped : runFrom begun (Eval.statement ctx statement) = (.error (.unreadable instead), ended))
      (told : ended.events = s.events ++ .stepStart st.index st.total :: begun.since ended)
      (inner : ∀ e ∈ begun.since ended, e.Inner) :
      Outcome ctx st statement rest s
        ⟨s, .error instead, st.finished, freeze ctx.domain ended⟩
  | hangs {begun ended} (running : ¬ ctx.Aborted s)
      (started : runFrom s (Eval.emit ctx .stepStart (.stepStart st.index st.total)) = (.ok (), begun))
      (stopped : runFrom begun (Eval.statement ctx statement) = (.error .stalled, ended))
      (told : ended.events = s.events ++ .stepStart st.index st.total :: begun.since ended)
      (inner : ∀ e ∈ begun.since ended, e.Inner) :
      Outcome ctx st statement rest s ⟨s, .error .stalled, st, ended⟩

theorem toldInside (observed : ctx.Observed) {st : Stepper} {statement : Statement}
    {s begun ended : State σ} {outcome : Except Stop Value}
    (started : runFrom s (Eval.emit ctx .stepStart (.stepStart st.index st.total)) = (.ok (), begun))
    (ran : runFrom begun (Eval.statement ctx statement) = (outcome, ended)) :
    ended.events = s.events ++ .stepStart st.index st.total :: begun.since ended := by
  obtain ⟨t, start, first⟩ := emitObserved observed .stepStart (.stepStart st.index st.total) s
  have inside := statementTells observed statement begun
  rw [start] at started
  cases started
  rw [ran] at inside
  rw [inside.kept, first, List.append_assoc, List.singleton_append]

theorem stepOutcome (observed : ctx.Observed) {st : Stepper} {statement : Statement}
    {rest : List Statement} (going : st.done = false) (left : st.remaining = statement :: rest)
    (s : State σ) : Outcome ctx st statement rest s (call ctx st s) := by
  have run : StepRun ctx st statement rest s (step ctx st s) := stepRuns going left s
  unfold call
  generalize step ctx st s = made at run
  cases run with
  | aborted pending => exact .aborted pending
  | unstarted _ started =>
    obtain ⟨begun, start, _⟩ := emitObserved observed .stepStart (.stepStart st.index st.total) s
    rw [start] at started
    cases started
  | @stopped begun stop ended result running started stopped fails =>
    have inside := statementTells observed statement begun
    have told := toldInside observed started stopped
    rw [stopped] at inside
    rw [← fails]
    unfold fail
    split
    · rename_i stalled
      cases stalled
      exact .hangs running started stopped told inside.inner
    · rename_i ends
      cases tells ctx st.index stop with
      | unread _ tells =>
        rw [tells]
        exact .unread running started stopped told inside.inner
      | event read tells =>
        obtain ⟨t, failed, last⟩ := emitObserved observed .failed (.failed st.index stop)
          (freeze ctx.domain ended)
        rw [tells, failed]
        refine .rejected running started stopped (read (observed.there .failed)) ends ?_ inside.inner
        have same : (freeze ctx.domain ended).events = ended.events := rfl
        rw [last, same, told, List.append_assoc, List.cons_append]
  | @unended begun v ended stop t result _ _ _ ends _ =>
    obtain ⟨u, stepEnd, _⟩ := emitObserved observed .stepEnd (.stepEnd st.index st.total v) ended
    rw [stepEnd] at ends
    cases ends
  | @valued begun v ended t running started valued ends =>
    have inside := statementTells observed statement begun
    have told := toldInside observed started valued
    rw [valued] at inside
    obtain ⟨u, stepEnd, last⟩ := emitObserved observed .stepEnd (.stepEnd st.index st.total v) ended
    rw [stepEnd] at ends
    cases ends
    have whole : (if rest.isEmpty then freeze ctx.domain t else t).events = s.events ++
        .stepStart st.index st.total :: (begun.since ended ++ [.stepEnd st.index st.total v]) := by
      have same : (if rest.isEmpty then freeze ctx.domain t else t).events = t.events := by
        split
        · rfl
        · rfl
      rw [same, last, told, List.append_assoc, List.cons_append]
    exact .valued running started valued whole inside.inner

structure Between (script : Script) (st : Stepper) : Prop where
  left : st.remaining = script.statements.drop st.index
  inside : st.index ≤ script.statements.length
  total : st.total = script.statements.length
  done : st.done = st.remaining.isEmpty

namespace Between

variable {script : Script} {st : Stepper}

theorem first (script : Script) : Between script (.ofScript script) := ⟨rfl, Nat.zero_le _, rfl, rfl⟩

theorem isDone (between : Between script st) :
    st.done = true ↔ st.index = script.statements.length := by
  have inside := between.inside
  rw [between.done, between.left, List.isEmpty_iff, List.drop_eq_nil_iff]
  omega

theorem next (between : Between script st) {statement : Statement} {rest : List Statement}
    (left : st.remaining = statement :: rest) (v : Value) :
    script.statements[st.index]? = some statement ∧
      rest.isEmpty = decide (st.index + 1 = script.statements.length) ∧
      Between script { st with
        remaining := rest, index := st.index + 1, lastValue := v, done := rest.isEmpty } := by
  have whole := between.left.symm.trans left
  obtain ⟨head, tail⟩ := dropNext whole
  have size := congrArg List.length whole
  rw [List.length_drop, List.length_cons] at size
  have last : rest.isEmpty = decide (st.index + 1 = script.statements.length) := by
    rw [Bool.eq_iff_iff, List.isEmpty_iff_length_eq_zero, decide_eq_true_iff]
    omega
  have inside : st.index + 1 ≤ script.statements.length := by omega
  exact ⟨head, last, tail.symm, inside, between.total, rfl⟩

end Between

structure Account (ctx : Context σ) (script : Script) (st : Stepper) (s : State σ)
    (cs : List (Call σ)) (turns : List (Turn σ)) (rest : List (Call σ)) (told : List Event) : Prop where
  parts : cs = turns.map Turn.call ++ rest
  bounded : st.index + turns.length ≤ script.statements.length
  runs : ∀ (k : Nat) (t : Turn σ), turns[k]? = some t → t.Runs ctx script (st.index + k)
  rest : Rest ctx script (st.index + turns.length) (Turn.lastValue st.lastValue turns) rest told
    (Call.lastStepper st cs).done
  events : (Call.lastState s cs).events = s.events ++
    ((turns.zipIdx st.index).flatMap (fun p => p.1.told script.statements.length p.2) ++ told)
  index : (Call.lastStepper st cs).index = st.index + turns.length
  value : (Call.lastStepper st cs).lastValue = Turn.lastValue st.lastValue turns

theorem accountOver {script : Script} {st : Stepper} {s : State σ} {c : Call σ} {told : List Event}
    (acts : List (Store σ → Store σ)) (between : Between script st)
    (stepper : c.stepper = st.finished) (events : c.after.events = s.events ++ told)
    (rest : (∀ c' ∈ calls ctx acts st.finished c.after, Idle script st.index st.lastValue c') →
      Rest ctx script st.index st.lastValue (c :: calls ctx acts st.finished c.after) told true) :
    ∃ turns rest told,
      Account ctx script st s (c :: calls ctx acts c.stepper c.after) turns rest told := by
  have isDone : st.finished.done = true := rfl
  have total : st.finished.total = script.statements.length := between.total
  obtain ⟨idle, last, quiet⟩ := callsIdle ctx isDone total acts c.after
  rw [stepper]
  have stays : Call.lastStepper st (c :: calls ctx acts st.finished c.after) = st.finished := by
    rw [Call.lastStepper, List.foldl_cons, stepper]
    exact last
  have told : (Call.lastState s (c :: calls ctx acts st.finished c.after)).events = s.events ++ told := by
    rw [← events, ← quiet]
    rfl
  refine ⟨[], _, _, rfl, between.inside, fun k t found => by simp at found, ?_, told, ?_, ?_⟩
  · rw [stays]
    exact rest idle
  · rw [stays]
    rfl
  · rw [stays]
    rfl

theorem accountTurn {script : Script} {st : Stepper} {s begun ended : State σ} {c : Call σ} {v : Value}
    {cs : List (Call σ)} {turns : List (Turn σ)} {rest : List (Call σ)} {told : List Event}
    (runs : Turn.Runs ctx script st.index ⟨c, begun, ended, v⟩) (index : c.stepper.index = st.index + 1)
    (value : c.stepper.lastValue = v)
    (events : c.after.events =
      s.events ++ Turn.told script.statements.length ⟨c, begun, ended, v⟩ st.index)
    (others : Account ctx script c.stepper c.after cs turns rest told) :
    Account ctx script st s (c :: cs) (⟨c, begun, ended, v⟩ :: turns) rest told := by
  have place : st.index + (⟨c, begun, ended, v⟩ :: turns).length = c.stepper.index + turns.length := by
    rw [index, List.length_cons]
    omega
  have last : Turn.lastValue st.lastValue (⟨c, begun, ended, v⟩ :: turns) =
      Turn.lastValue c.stepper.lastValue turns := by
    rw [value]
    rfl
  refine ⟨?_, ?_, fun k u found => ?_, ?_, ?_, ?_, ?_⟩
  · rw [others.parts]
    rfl
  · rw [place]
    exact others.bounded
  · cases k with
    | zero =>
      cases Option.some.inj found
      exact runs
    | succ k =>
      have later := others.runs k u found
      rwa [index, Nat.add_assoc, Nat.add_comm 1] at later
  · rw [place, last]
    exact others.rest
  · have behind := others.events
    rw [events, index] at behind
    rw [List.zipIdx_cons, List.flatMap_cons, List.append_assoc, ← List.append_assoc s.events]
    exact behind
  · rw [place]
    exact others.index
  · rw [last]
    exact others.value

theorem accountCompleted {script : Script} {st : Stepper} (between : Between script st)
    (isDone : st.done = true) (acts : List (Store σ → Store σ)) (s : State σ) :
    ∃ turns rest told, Account ctx script st s (calls ctx acts st s) turns rest told := by
  obtain ⟨idle, last, quiet⟩ := callsIdle ctx isDone between.total acts s
  refine ⟨[], _, [], rfl, between.inside, fun k t found => by simp at found, ?_, ?_, ?_, ?_⟩
  · rw [last, isDone]
    exact .completed (between.isDone.mp isDone) idle
  · rw [quiet]
    exact (List.append_nil _).symm
  · rw [last]
    rfl
  · rw [last]
    rfl

theorem accountNone {script : Script} {st : Stepper} (between : Between script st)
    (going : st.done = false) (s : State σ) : Account ctx script st s [] [] [] [] := by
  have left : st.index ≠ script.statements.length := fun all => by
    rw [between.isDone.mpr all] at going
    cases going
  have inside : st.index < script.statements.length := Nat.lt_of_le_of_ne between.inside left
  refine ⟨rfl, between.inside, fun k t found => by simp at found, ?_, (List.append_nil _).symm, rfl, rfl⟩
  have stays : (Call.lastStepper st ([] : List (Call σ))).done = false := going
  rw [stays]
  exact .none inside

theorem accountStuck {script : Script} {st : Stepper} {s begun ended : State σ} {c : Call σ}
    (between : Between script st) (going : st.done = false) (same : c.stepper = st)
    (stops : StopsAt ctx script st.index c begun ended .stalled)
    (told : c.after.events =
      s.events ++ .stepStart st.index script.statements.length :: begun.since ended) :
    Account ctx script st s [c] [] [c]
      (.stepStart st.index script.statements.length :: begun.since ended) := by
  refine ⟨rfl, between.inside, fun k t found => by simp at found, ?_, told, ?_, ?_⟩
  · have stays : (Call.lastStepper st [c]).done = false := (congrArg Stepper.done same).trans going
    rw [stays]
    exact .hangs stops
  · exact congrArg Stepper.index same
  · exact congrArg Stepper.lastValue same

theorem callsAccount (observed : ctx.Observed) {script : Script} (acts : List (Store σ → Store σ))
    {st : Stepper} (between : Between script st) (s : State σ) :
    ∃ turns rest told, Account ctx script st s (calls ctx acts st s) turns rest told := by
  induction acts generalizing st s with
  | nil =>
    cases isDone : st.done with
    | true => exact accountCompleted between isDone [] s
    | false => exact ⟨[], [], [], accountNone between isDone s⟩
  | cons act acts ih =>
    cases isDone : st.done with
    | true => exact accountCompleted between isDone _ s
    | false =>
      obtain ⟨statement, rest, left⟩ := List.exists_cons_of_ne_nil fun none : st.remaining = [] => by
        rw [between.done, none] at isDone
        cases isDone
      have outcome := stepOutcome observed isDone left (s.acted act)
      generalize made : call ctx st (s.acted act) = c at outcome
      cases outcome with
      | aborted pending =>
        rw [callsOn made nofun]
        exact accountOver acts between rfl (List.append_nil _).symm fun idle =>
          .aborted ⟨pending, ⟨statement, (between.next left .none).1, rfl⟩,
            freezeStill ctx.domain _ rfl⟩ idle
      | @valued begun v ended t running started valued told inner =>
        obtain ⟨here, last, following⟩ := between.next left v
        obtain ⟨turns, others, more, account⟩ := ih following t
        rw [callsOn made nofun]
        rw [between.total] at started told
        have answers : (.ok ⟨v, rest.isEmpty, st.index, st.total⟩ : Except Stop StepResult) =
            .ok ⟨v, decide (st.index + 1 = script.statements.length), st.index,
              script.statements.length⟩ := by
          rw [last, between.total]
        exact ⟨_, others, more, accountTurn
          ⟨running, started, ⟨statement, here, valued⟩, inner, answers⟩ rfl rfl told account⟩
      | rejected running started stopped read ends told inner =>
        rw [between.total] at started told
        rw [callsOn made fun stalled => ends (Except.error.inj stalled)]
        have same : ctx.answered _ = _ := Context.answeredRead fun _ => read
        exact accountOver acts between rfl told fun idle =>
          .rejected ⟨running, started, ⟨statement, (between.next left .none).1, stopped⟩, inner,
            congrArg _ same.symm⟩ read ends idle
      | @unread begun instead ended running started stopped told inner =>
        rw [between.total] at started told
        have same : ctx.answered (.unreadable instead) = instead :=
          Context.answeredUnread (observed.there .failed)
        have stops : StopsAt ctx script st.index
            ⟨s.acted act, .error instead, st.finished, freeze ctx.domain ended⟩ begun ended
            (.unreadable instead) :=
          ⟨running, started, ⟨statement, (between.next left .none).1, stopped⟩, inner,
            congrArg _ same.symm⟩
        by_cases stalled : instead = .stalled
        · rw [callsStuck made (congrArg Except.error stalled)]
          exact accountOver [] between rfl told fun idle => .unread stops idle fun _ => rfl
        · rw [callsOn made fun same => stalled (Except.error.inj same)]
          exact accountOver acts between rfl told fun idle =>
            .unread stops idle fun same => absurd same stalled
      | hangs running started stopped told inner =>
        rw [between.total] at started told
        have same : ctx.answered .stalled = .stalled := Context.answeredRead fun _ => rfl
        rw [callsStuck made rfl]
        exact ⟨[], _, _, accountStuck between isDone rfl
          ⟨running, started, ⟨statement, (between.next left .none).1, stopped⟩, inner, congrArg _ same.symm⟩ told⟩

/- However often a stepper is called: its calls first run statements, whose events stand between the
start and the end of their steps. Of the calls behind them at most the first one tells something; it
does so if it begins a statement that has no value. Once a step has failed, or no statement is left,
every call answers with the last value and leaves everything as it is. The result has that value too,
unless a variable has no place in it. -/
theorem stepProtocol (observed : ctx.Observed) (script : Script) (start : State σ)
    (acts : List (Store σ → Store σ)) :
    ∃ (turns : List (Turn σ)) (rest : List (Call σ)) (told : List Event),
      let n := script.statements.length
      let m := turns.length
      let made := calls ctx acts (.ofScript script) start
      let last := Turn.lastValue .none turns
      let stepper := Call.lastStepper (.ofScript script) made
      let state := Call.lastState start made
      m ≤ n ∧ made = turns.map Turn.call ++ rest ∧
        (∀ (i : Nat) (t : Turn σ), turns[i]? = some t → t.Runs ctx script i) ∧
        Rest ctx script m last rest told stepper.done ∧
        state.events = start.events ++ (turns.zipIdx.flatMap (fun p => p.1.told n p.2) ++ told) ∧
        stepper.index = m ∧ RunResult.Collects state.store.heap last state.store.bindings
          (stepper.result state.store) := by
  obtain ⟨turns, rest, told, account⟩ := callsAccount observed acts (.first script) start
  have place : (ofScript script).index + turns.length = turns.length := Nat.zero_add _
  refine ⟨turns, rest, told, place ▸ account.bounded, account.parts, fun i t found => ?_,
    place ▸ account.rest, account.events, place ▸ account.index, account.value ▸ RunResult.collects ..⟩
  have runs := account.runs i t found
  rwa [ofScript, Nat.zero_add] at runs

section

def watched : Context Unit := { Context.plain 0 with listener := fun _ => some fun _ s => (none, s) }

def callAndName : Script :=
  ⟨[.assignment (text "x") (.call (text "tuple") [] .synthetic) .synthetic,
    .expression (.name (text "y") .synthetic) .synthetic], .synthetic⟩

def untouched : State Unit := ⟨⟨⟨#[], 0, []⟩, [], false, ()⟩, []⟩

def unknownY : Stop := .fault ⟨.undefinedVariable (text "y"), none⟩

theorem unknownNameStops : watched.Observed ∧
    (calls watched [id, id, id] (.ofScript callAndName) untouched).map Call.answer =
      [.ok ⟨.object 0, false, 0, 2⟩, .error unknownY, .ok ⟨.object 0, true, 1, 2⟩] ∧
    ∃ turns rest told,
      calls watched [id, id, id] (.ofScript callAndName) untouched = turns.map Turn.call ++ rest ∧
        (∀ (i : Nat) (t : Turn Unit), turns[i]? = some t → t.Runs watched callAndName i) ∧
        Rest watched callAndName turns.length (Turn.lastValue .none turns) rest told true ∧
        turns.zipIdx.flatMap (fun p => p.1.told 2 p.2) ++ told =
          [.stepStart 0 2, .call (text "tuple") [], .returned (text "tuple") (.object 0),
            .stepEnd 0 2 (.object 0), .stepStart 1 2, .failed 1 unknownY] := by
  have observed : watched.Observed := fun kind => ⟨_, rfl, fun _ _ => rfl⟩
  obtain ⟨turns, rest, told, _, parts, runs, others, events, _⟩ :=
    stepProtocol observed callAndName untouched [id, id, id]
  exact ⟨observed, rfl, turns, rest, told, parts, runs, others, events.symm⟩

def boomWatched : Context Unit :=
  { watched with functions := Context.functionsWith [(text "boom", raisesNoText)] }

def boomScript : Script := ⟨[.expression (.call (text "boom") [] .synthetic) .synthetic], .synthetic⟩

theorem noResultNoFailure : watched.Observed ∧ boomWatched.Observed ∧
    (∃ made, calls watched [id, id] (.ofScript ⟨takesLength, .synthetic⟩) untouched = made ∧
      made.map Call.answer = [.ok ⟨.object 0, false, 0, 2⟩, .ok ⟨.number (.ofNat 5), true, 1, 2⟩] ∧
      (Call.lastStepper (.ofScript ⟨takesLength, .synthetic⟩) made).result
        (Call.lastState untouched made).store = .error (RunResult.refused .tuple (text "length"))) ∧
    ∃ made, calls boomWatched [id] (.ofScript boomScript) untouched = made ∧
      made.map Call.answer = [.error noText] ∧
      (Call.lastState untouched made).events = [.stepStart 0 1, .call (text "boom") []] := by
  have watches {functions : Bindings (Callable Unit)} :
      { watched with functions := functions }.Observed := fun _ => ⟨_, rfl, fun _ _ => rfl⟩
  exact ⟨watches, watches, ⟨_, rfl, rfl, rfl⟩, _, rfl, rfl, rfl⟩

end

end Stepper

end SeqScript
