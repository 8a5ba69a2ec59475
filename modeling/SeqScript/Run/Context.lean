import SeqScript.Builtin
import SeqScript.Fault.Report
import SeqScript.Tree.Summary
import SeqScript.Value.Heap

/-!
What a script runs in. The context is fixed for a run: the functions a script may call, the
listeners that watch it and its limits. The store changes: the heap, the variables, the host's
own state, and whether an abort was requested. Every event that a listener is there for is kept
in a trace, with the heap as it was at that moment.

A host function is any function of its arguments and the store. What it answers may be there at
once or only later.
-/
namespace SeqScript

inductive Stop where
  | fault (f : Fault)
  | failure (kind message : Text)
  -- In place of an error a host may throw a value of scripts,
  | thrown (v : Value)
  -- or a thing of its own, with the text that it reads as,
  | foreign (shown : Text)
  -- or one that has no text, with what reading it throws.
  | unreadable (instead : Stop)
  | stalled
  deriving DecidableEq, Repr

namespace Stop

def name : Stop → Text
  | .fault f => f.report.reportClass.name
  | .failure kind _ => kind
  | _ => text "Error"

def message : Stop → Text
  | .fault f => f.report.message
  | .failure _ message => message
  | .thrown (.scalar s) => s.plain
  | .thrown (.object _) => text "[object Object]"
  | .foreign shown => shown
  | .unreadable _ | .stalled => []

def unread? : Stop → Option Stop
  | .unreadable instead => some instead
  | _ => none

end Stop

inductive Event where
  | stepStart (index total : Nat)
  | stepEnd (index total : Nat) (value : Value)
  | call (name : Text) (args : List Value)
  | returned (name : Text) (value : Value)
  | failed (index : Nat) (stop : Stop)
  | logged (value : Value)
  -- A line written because nobody listens to logged values.
  | console (line : Text)
  deriving DecidableEq, Repr

inductive EventKind where
  | stepStart | stepEnd | call | returned | failed | logged
  deriving DecidableEq, Repr

structure Store (σ : Type) where
  heap : Heap
  bindings : Bindings Value
  aborted : Bool
  host : σ

structure Entry where
  event : Event
  heap : Heap

structure State (σ : Type) where
  store : Store σ
  trace : List Entry

inductive Later where
  | resolves (v : Value)
  | rejects (stop : Stop)
  | hangs
  -- An abort is requested before any answer.
  | aborts
  deriving DecidableEq, Repr

inductive Reply where
  | value (v : Value)
  | raised (stop : Stop)
  | later (l : Later)
  deriving DecidableEq, Repr

structure Invocation where
  args : List Value
  location : Option Location
  domain : Domain

abbrev HostFunction (σ : Type) := Invocation → Store σ → Reply × Store σ

abbrev Listener (σ : Type) := Event → Store σ → Option Stop × Store σ

inductive Callable (σ : Type) where
  | builtin (b : Builtin)
  | host (f : HostFunction σ)

structure Context (σ : Type) where
  functions : Bindings (Callable σ)
  listener : EventKind → Option (Listener σ)
  domain : Domain
  timeout : Option Number
  -- Without a signal an abort has no effect.
  hasSignal : Bool
  limits : Limits

namespace Context

variable {σ : Type}

def builtinFunctions : Bindings (Callable σ) := Builtin.all.map fun b => (b.name, .builtin b)

def functionsWith (host : Bindings (HostFunction σ)) : Bindings (Callable σ) :=
  host.foldl (fun fs p => fs.set p.1 (.host p.2)) builtinFunctions

def plain (domain : Domain) : Context σ where
  functions := builtinFunctions
  listener _ := none
  domain := domain
  timeout := none
  hasSignal := false
  limits := .standard

end Context

end SeqScript
