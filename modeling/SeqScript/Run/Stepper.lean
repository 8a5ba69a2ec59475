import SeqScript.Names
import SeqScript.Run.Evaluate
import SeqScript.Run.Result

/-!
Running scripts, one statement at a time or to the end. The domain of the context is frozen when
the last statement completes, when a step fails and when a run is over, whatever its outcome.

A step's listeners take part in it, with one exception: what the listener of a step's start
refuses stops the step before it has begun, and leaves the stepper as it was.
-/
namespace SeqScript

structure Stepper where
  remaining : List Statement
  index : Nat
  total : Nat
  lastValue : Value
  done : Bool

structure StepResult where
  value : Value
  done : Bool
  index : Nat
  total : Nat
  deriving DecidableEq, Repr

namespace Stepper

variable {σ : Type}

def ofScript (s : Script) : Stepper :=
  ⟨s.statements, 0, s.statements.length, .none, s.statements.isEmpty⟩

def finished (s : Stepper) : Stepper := { s with done := true }

def freeze (d : Domain) (state : State σ) : State σ :=
  { state with store := { state.store with heap := state.store.heap.freeze d } }

def runFrom {α : Type} (state : State σ) (e : Eval σ α) : Except Stop α × State σ := e.run.run state

variable (ctx : Context σ)

/- Whoever listens to failures is told an error. A reason that is none is read as a text for that,
and what its reading throws comes in its place, with nothing told. -/
def tellFailed (index : Nat) (stop : Stop) : Eval σ Unit :=
  match ctx.listener .failed, stop.unread? with
  | some _, some instead => throw instead
  | _, _ => Eval.emit ctx .failed (.failed index stop)

/- Ends a step that failed. A run that waits for ever does not end. -/
def fail (s : Stepper) (stop : Stop) (state : State σ) :
    Except Stop StepResult × Stepper × State σ :=
  if stop = .stalled then (.error stop, s, state)
  else
    match runFrom (freeze ctx.domain state) (tellFailed ctx s.index stop) with
    | (.ok (), state) => (.error stop, s.finished, state)
    | (.error other, state) => (.error other, s.finished, state)

def succeed (s : Stepper) (rest : List Statement) (v : Value) (state : State σ) :
    Except Stop StepResult × Stepper × State σ :=
  let s := { s with lastValue := v }
  match runFrom state (Eval.emit ctx .stepEnd (.stepEnd s.index s.total v)) with
  | (.error stop, state) => fail ctx s stop state
  | (.ok (), state) =>
    let last := rest.isEmpty
    (.ok ⟨v, last, s.index, s.total⟩,
      { s with remaining := rest, index := s.index + 1, done := last },
      if last then freeze ctx.domain state else state)

def step (s : Stepper) (state : State σ) : Except Stop StepResult × Stepper × State σ :=
  match s.done, s.remaining with
  | false, statement :: rest =>
    if ctx.hasSignal && state.store.aborted then
      (.error (.fault ⟨.aborted, statement.span.location?⟩), s.finished,
        freeze ctx.domain state)
    else
      match runFrom state (Eval.emit ctx .stepStart (.stepStart s.index s.total)) with
      | (.error stop, state) => (.error stop, s, state)
      | (.ok (), state) =>
        match runFrom state (Eval.statement ctx statement) with
        | (.error stop, state) => fail ctx s stop state
        | (.ok v, state) => succeed ctx s rest v state
  | _, _ => (.ok ⟨s.lastValue, true, s.index, s.total⟩, s.finished, freeze ctx.domain state)

def stepAll : Nat → Stepper → State σ → Except Stop Unit × Stepper × State σ
  | 0, s, state => (.ok (), s, state)
  | n + 1, s, state =>
    if s.done then (.ok (), s, state)
    else
      match step ctx s state with
      | (.error stop, s, state) => (.error stop, s, state)
      | (.ok _, s, state) => stepAll n s state

def result (s : Stepper) (store : Store σ) : Except Stop RunResult :=
  RunResult.collect store.heap s.lastValue store.bindings

end Stepper

namespace Run

variable {σ : Type} (ctx : Context σ)

def execute (script : Script) (state : State σ) : Except Stop RunResult × State σ :=
  let s := Stepper.ofScript script
  match Stepper.stepAll ctx s.remaining.length s state with
  | (.error .stalled, _, state) => (.error .stalled, state)
  | (.error stop, _, state) => (.error stop, Stepper.freeze ctx.domain state)
  | (.ok (), s, state) => (s.result state.store, Stepper.freeze ctx.domain state)

def evaluate (e : Expr) (state : State σ) : Except Stop Value × State σ :=
  Stepper.runFrom state (Eval.expr ctx e)

def knownNames (bindings : Bindings Value) : List Text :=
  Builtin.names ++ ctx.functions.names ++ bindings.names

def checkNames (n : Node) (bindings : Bindings Value) : Except Fault Unit :=
  (Names.check .standard n (knownNames ctx bindings)).1

end Run

end SeqScript
