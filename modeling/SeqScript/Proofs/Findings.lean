import SeqScript.Proofs.Names
import SeqScript.Proofs.Queries

/-! What the check that goes on finds, told without the walk and its changing environment. A name is
known in a statement when it was known before the script or is the target of an earlier statement,
whatever problems that one has. Each node has at most one problem, and they are listed in pre-order. -/
namespace SeqScript

def Node.problem? (known : Text → Prop) [DecidablePred known] : Node → Option Fault
  | .expression (.name name span) =>
    if known name then none else some ⟨.undefinedName name, span.location?⟩
  | .expression (.call callee _ span) =>
    if known callee then none else some ⟨.undefinedName callee, span.location?⟩
  | .statement (.assignment target _ span) =>
    if target ∈ Builtin.names then some ⟨.builtinTarget target, span.location?⟩ else none
  | _ => none

namespace Script

def nodes (s : Script) : List (Nat × Node) :=
  s.statements.zipIdx.flatMap fun p => (p.1.preorder 1).map fun n => (p.2, n.1)

/-- A builtin, a function or a variable of the context, or a target of a statement before the one
with this number. -/
def Visible {σ : Type} (s : Script) (ctx : Context σ) (bindings : Bindings Value) (i : Nat)
    (name : Text) : Prop :=
  name ∈ Builtin.names ∨ name ∈ ctx.functions.names ∨ name ∈ bindings.names ∨
    ∃ t ∈ s.statements.take i, t.target? = some name

instance {σ : Type} (s : Script) (ctx : Context σ) (bindings : Bindings Value) (i : Nat) :
    DecidablePred (s.Visible ctx bindings i) := by
  unfold Visible
  infer_instance

theorem nodesPreorder (s : Script) :
    (Node.script s).preorder.map Prod.fst = .script s :: s.nodes.map Prod.snd := by
  have unnumbered : (s.statements.zipIdx.flatMap fun p => p.1.preorder 1) =
      s.statements.flatMap (Statement.preorder 1) := by
    have same := List.flatMap_map Prod.fst (Statement.preorder 1) (l := s.statements.zipIdx)
    rw [List.zipIdx_map_fst] at same
    exact same.symm
  rw [Node.preorder, nodes, ← unnumbered]
  simp [List.map_flatMap, Function.comp_def]

end Script

namespace Query

variable {known : List Text}

def problems (known : List Text) (nodes : List (Node × Nat)) : List Fault :=
  nodes.filterMap fun n => n.1.problem? (· ∈ known)

theorem problemsAppend (ns ms : List (Node × Nat)) :
    problems known (ns ++ ms) = problems known ns ++ problems known ms := List.filterMap_append

theorem problemsCons (n : Node × Nat) (ns : List (Node × Nat)) :
    problems known (n :: ns) = (n.1.problem? (· ∈ known)).toList ++ problems known ns := by
  simp only [problems, List.filterMap_cons]
  split <;> simp [*]

theorem useFinds (name : Text) (span : Span) : (use name span).put .standard known =
    (if name ∈ known then none else some ⟨.undefinedName name, span.location?⟩, known) := by
  simp [put, Environment.standard, Environment.withBuiltins, Environment.useProblem]

theorem targetFinds (name : Text) (span : Span) : (target name span).put .standard known =
    (if name ∈ Builtin.names then some ⟨.builtinTarget name, span.location?⟩ else none, known) := by
  simp [put, Environment.standard, Environment.withBuiltins, Environment.targetProblem]

mutual

theorem exprFinds (depth : Nat) (e : Expr) :
    all .standard e.queries known = (problems known (e.preorder depth), known) := by
  match e with
  | .literal _ _ => rfl
  | .sequence kind elements span => exact slotsFind (depth + 1) elements
  | .name n span =>
    rw [Expr.queries, Expr.preorder, problemsCons, all, useFinds]
    rfl
  | .call callee args span =>
    rw [Expr.queries, Expr.preorder, problemsCons, all, useFinds, argsFind (depth + 1) args]
    rfl
  | .subscript object index span =>
    rw [Expr.queries, Expr.preorder, problemsCons, problemsAppend, allAppend,
      exprFinds (depth + 1) object, exprFinds (depth + 1) index]
    rfl
  | .unary op operand span => exact exprFinds (depth + 1) operand

theorem slotsFind (depth : Nat) (elements : List (Option Expr)) :
    all .standard (Expr.slotQueries elements) known =
      (problems known (Expr.preorderSlots depth elements), known) := by
  match elements with
  | [] => rfl
  | none :: rest => exact slotsFind depth rest
  | some e :: rest =>
    rw [Expr.slotQueries, Expr.preorderSlots, problemsAppend, allAppend, exprFinds depth e,
      slotsFind depth rest]

theorem argsFind (depth : Nat) (es : List Expr) :
    all .standard (Expr.argQueries es) known =
      (problems known (Expr.preorderAll depth es), known) := by
  match es with
  | [] => rfl
  | e :: rest =>
    rw [Expr.argQueries, Expr.preorderAll, problemsAppend, allAppend, exprFinds depth e,
      argsFind depth rest]

end

theorem statementFinds (depth : Nat) (s : Statement) :
    all .standard s.queries known = (problems known (s.preorder depth), s.learned known) := by
  cases s with
  | expression e span => exact exprFinds (depth + 1) e
  | assignment target value span =>
    rw [Statement.queries, Statement.preorder, problemsCons, all, targetFinds, allAppend,
      exprFinds (depth + 1) value]
    simp [all, put, Node.problem?, Statement.learned]

theorem statementsFind (known : List Text) (before rest : List Statement) :
    (all .standard (rest.flatMap Statement.queries) (knownBehind known before)).1 =
      (rest.zipIdx before.length).flatMap fun p =>
        problems (knownBehind known ((before ++ rest).take p.2)) (p.1.preorder 1) := by
  induction rest generalizing before with
  | nil => rfl
  | cons s rest ih =>
    have next : knownBehind known (before ++ [s]) = s.learned (knownBehind known before) := by
      simp [knownBehind]
    have others := ih (before ++ [s])
    rw [next, List.append_assoc, List.length_append] at others
    rw [List.flatMap_cons, allAppend, statementFinds 1 s, List.zipIdx_cons, List.flatMap_cons,
      others, List.take_left]
    rfl

end Query

namespace Names

theorem problemAlike {known seen : Text → Prop} [DecidablePred known] [DecidablePred seen]
    (same : ∀ name, known name ↔ seen name) (n : Node) : n.problem? known = n.problem? seen := by
  unfold Node.problem?
  simp only [same]

/- The check that goes on finds the problems of all nodes of a script in pre-order, and nothing else,
where a node sees the names of the context and the targets of the statements before its own. -/
theorem collectsProblems {σ : Type} (ctx : Context σ) (bindings : Bindings Value) (script : Script) :
    (collect .standard (.script script) (Run.knownNames ctx bindings)).1 =
      script.nodes.filterMap (fun p => p.2.problem? (script.Visible ctx bindings p.1)) ∧
    (Node.script script).preorder.map Prod.fst = .script script :: script.nodes.map Prod.snd := by
  refine ⟨?_, script.nodesPreorder⟩
  have found := Query.statementsFind (Run.knownNames ctx bindings) [] script.statements
  rw [collectAsks]
  refine found.trans ?_
  rw [Script.nodes, List.filterMap_flatMap]
  refine congrArg (List.flatMap · _) (funext fun p => ?_)
  rw [List.filterMap_map]
  refine congrArg (List.filterMap · _) (funext fun n => problemAlike (fun name => ?_) n.1)
  rw [memKnownBehind, Run.knownNames, Script.Visible]
  simp [or_assoc]

end Names

end SeqScript
