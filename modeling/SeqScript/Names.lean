import SeqScript.Builtin
import SeqScript.Tree.Traversal

/-!
Checking names before a script runs. Variables and functions share one flat space of names. A name
is known once its assignment is complete, so an assigned expression cannot use the name that it
is assigned to first. Builtin names cannot be assigned.

There are two checks. One stops at the first problem; the other walks the whole tree and lists
every problem. Both ask an environment, which may change with each question.
-/
namespace SeqScript

structure Environment (σ : Type) where
  isDefined : Text → σ → Bool × σ
  isBuiltin : Text → σ → Bool × σ
  define : Text → σ → σ

namespace Environment

def withBuiltins (builtins : List Text) : Environment (List Text) where
  isDefined name known := (known.contains name, known)
  isBuiltin name known := (builtins.contains name, known)
  define name known := if known.contains name then known else known ++ [name]

def standard : Environment (List Text) := withBuiltins Builtin.names

variable {σ : Type} (env : Environment σ)

def useProblem (name : Text) (span : Span) (s : σ) : Option Fault × σ :=
  let (defined, s) := env.isDefined name s
  (if defined then none else some ⟨.undefinedName name, span.location?⟩, s)

def targetProblem (target : Text) (span : Span) (s : σ) : Option Fault × σ :=
  let (builtin, s) := env.isBuiltin target s
  (if builtin then some ⟨.builtinTarget target, span.location?⟩ else none, s)

end Environment

inductive Question where
  | isDefined (name : Text)
  | isBuiltin (name : Text)
  | define (name : Text)
  deriving DecidableEq, Repr

def Environment.recorded {σ : Type} (env : Environment σ) : Environment (σ × List Question) where
  isDefined name s :=
    let (answer, t) := env.isDefined name s.1
    (answer, t, s.2 ++ [.isDefined name])
  isBuiltin name s :=
    let (answer, t) := env.isBuiltin name s.1
    (answer, t, s.2 ++ [.isBuiltin name])
  define name s := (env.define name s.1, s.2 ++ [.define name])

abbrev Check (σ : Type) := ExceptT Fault (StateM σ)

namespace Check

variable {σ : Type}

def refuse (problem : σ → Option Fault × σ) : Check σ Unit := do
  match ← modifyGet problem with
  | some f => throw f
  | none => pure ()

variable (env : Environment σ)

mutual

def expr : Expr → Check σ Unit
  | .literal _ _ => pure ()
  | .sequence _ elements _ => slots elements
  | .name n span => refuse (env.useProblem n span)
  | .call callee args span => do
    refuse (env.useProblem callee span)
    exprs args
  | .subscript object index _ => do
    expr object
    expr index
  | .unary _ operand _ => expr operand

def slots : List (Option Expr) → Check σ Unit
  | [] => pure ()
  | none :: rest => slots rest
  | some e :: rest => do
    expr e
    slots rest

def exprs : List Expr → Check σ Unit
  | [] => pure ()
  | e :: rest => do
    expr e
    exprs rest

end

def statement : Statement → Check σ Unit
  | .expression e _ => expr env e
  | .assignment target value span => do
    refuse (env.targetProblem target span)
    expr env value
    modify (env.define target)

def statements : List Statement → Check σ Unit
  | [] => pure ()
  | s :: rest => do
    statement env s
    statements rest

def node : Node → Check σ Unit
  | .script s => statements env s.statements
  | .statement s => statement env s
  | .expression e => expr env e

end Check

namespace Names

variable {σ : Type} (env : Environment σ)

def check (n : Node) (s : σ) : Except Fault Unit × σ := (Check.node env n).run.run s

structure Findings (σ : Type) where
  state : σ
  found : List Fault

def Findings.ask (f : Findings σ) (problem : σ → Option Fault × σ) : Findings σ :=
  let (found, s) := problem f.state
  ⟨s, f.found ++ found.toList⟩

def enter (n : Node) (f : Findings σ) : Findings σ :=
  match n with
  | .expression (.name name span) => f.ask (env.useProblem name span)
  | .expression (.call callee _ span) => f.ask (env.useProblem callee span)
  | .statement (.assignment target _ span) => f.ask (env.targetProblem target span)
  | _ => f

def exit (n : Node) (f : Findings σ) : Findings σ :=
  match n with
  | .statement (.assignment target _ _) => { f with state := env.define target f.state }
  | _ => f

def collect (n : Node) (s : σ) : List Fault × σ :=
  let f := n.walk (enter env) (exit env) ⟨s, []⟩
  (f.found, f.state)

end Names

end SeqScript
