import SeqScript.Run.Stepper
import SeqScript.Settings.Basic
import SeqScript.Tree.Parser
import SeqScript.Value.Written

/-!
Evaluating a source text under settings: parse it, check its names, run it. The run has a domain
of its own and the builtins alone; what it logs is kept in its trace. Evaluations may follow one
another in one heap, which then holds the configured tuples for all of them.
-/
namespace SeqScript.Source

def keepLogged : Listener Unit := fun _ s => (none, s)

def loggedLine (e : Entry) : Option Text :=
  match e.event with
  | .logged v => some (e.heap.output v)
  | _ => none

def loggedLines (trace : List Entry) : List Text := trace.filterMap loggedLine

def settingWith {σ : Type} (settings : Settings) (onLog : Option (Listener σ)) (host : σ)
    (h : Heap) : Context σ × State σ :=
  let (domain, h) := h.newDomain
  (settings.context domain onLog, ⟨⟨h, settings.bindings.getD [], false, host⟩, []⟩)

def evaluateWith {σ : Type} (settings : Settings) (onLog : Option (Listener σ)) (host : σ)
    (source : Text) (h : Heap) : Except Stop RunResult × State σ :=
  let (ctx, state) := settingWith settings onLog host h
  match Parser.script source with
  | .error f => (.error (.fault f), state)
  | .ok script =>
    match Run.checkNames ctx (.script script) state.store.bindings with
    | .error f => (.error (.fault f), state)
    | .ok () => Run.execute ctx script state

def evaluate (settings : Settings) (source : Text) (h : Heap) :
    Except Stop RunResult × State Unit :=
  evaluateWith settings (some keepLogged) () source h

def problems (settings : Settings) (source : Text) (h : Heap) : Except Fault (List Fault) := do
  let (ctx, state) := settingWith settings (some keepLogged) () h
  let script ← Parser.script source
  return (Names.collect .standard (.script script) (Run.knownNames ctx state.store.bindings)).1

end SeqScript.Source
