import SeqScript.Proofs.Run.Ensures
import SeqScript.Proofs.Tree.Nodes
import SeqScript.Run.Stepper

/-! What the check of names accepts and what it refuses. In the usual environment the known names
change with assignments alone: a tree is accepted when every name in it is known where it stands
and no target is a builtin. -/
namespace SeqScript

def Expr.Knows (known : List Text) : Expr → Prop
  | name n _ => n ∈ known
  | call callee _ _ => callee ∈ known
  | _ => True

def Statement.target? : Statement → Option Text
  | .expression _ _ => none
  | .assignment target _ _ => some target

def Statement.learned (known : List Text) : Statement → List Text
  | .expression _ _ => known
  | .assignment target _ _ => Environment.standard.define target known

def Statement.AllKnown (known : List Text) : List Statement → Prop
  | [] => True
  | s :: rest => s.expr.All (Expr.Knows known) True ∧ (∀ t ∈ s.target?, t ∉ Builtin.names) ∧
      AllKnown (s.learned known) rest

def Expr.Placed (place : Option Location → Prop) (e : Expr) : Prop := place e.span.location?

def Statement.Placed (place : Option Location → Prop) (s : Statement) : Prop :=
  place s.span.location? ∧ s.expr.All (Expr.Placed place) True

def NameFault (f : Fault) (placed : (Option Location → Prop) → Prop) : Prop :=
  f.cause.reportClass = .validation ∧ ∀ place, placed place → place f.location

namespace Check

theorem ensuresUse {known : List Text} {n : Text} {span : Span} {p : Unit → List Text → Prop}
    {q : Fault → List Text → Prop} (isKnown : n ∈ known → p () known)
    (unknown : n ∉ known → q ⟨.undefinedName n, span.location?⟩ known) :
    Ensures known (refuse (Environment.standard.useProblem n span)) p q := by
  refine Ensures.bind (r := fun problem k => k = known ∧
    problem = if n ∈ known then none else some ⟨.undefinedName n, span.location?⟩) ?_ ?_
  · exact ensuresModifyGet ⟨rfl, by simp [Environment.standard, Environment.withBuiltins, Environment.useProblem]⟩
  · rintro _ k ⟨rfl, rfl⟩
    by_cases member : n ∈ k
    · rw [if_pos member]
      exact ensuresPure (isKnown member)
    · rw [if_neg member]
      exact ensuresThrow (unknown member)

theorem ensuresTarget {known : List Text} {n : Text} {span : Span} {p : Unit → List Text → Prop}
    {q : Fault → List Text → Prop} (free : n ∉ Builtin.names → p () known)
    (builtin : n ∈ Builtin.names → q ⟨.builtinTarget n, span.location?⟩ known) :
    Ensures known (refuse (Environment.standard.targetProblem n span)) p q := by
  refine Ensures.bind (r := fun problem k => k = known ∧
    problem = if n ∈ Builtin.names then some ⟨.builtinTarget n, span.location?⟩ else none) ?_ ?_
  · exact ensuresModifyGet ⟨rfl, by simp [Environment.standard, Environment.withBuiltins, Environment.targetProblem]⟩
  · rintro _ _ ⟨rfl, rfl⟩
    by_cases member : n ∈ Builtin.names
    · rw [if_pos member]
      exact ensuresThrow (builtin member)
    · rw [if_neg member]
      exact ensuresPure (free member)

mutual

theorem ensuresExpr (e : Expr) (known : List Text) :
    Ensures known (expr .standard e)
      (fun _ k => k = known ∧ e.All (Expr.Knows known) True)
      fun f _ => NameFault f fun place => e.All (Expr.Placed place) True := by
  match e with
  | .literal v span => exact ensuresPure ⟨rfl, trivial⟩
  | .sequence kind elements span =>
    exact (ensuresSlots elements known).weaken (fun _ _ checked => ⟨checked.1, trivial, checked.2⟩)
      fun _ _ ⟨use, located⟩ => ⟨use, fun place placed => located place placed.2⟩
  | .name n span =>
    exact ensuresUse (fun isKnown => ⟨rfl, isKnown⟩) fun _ => ⟨rfl, fun place placed => placed⟩
  | .call callee args span =>
    refine (ensuresUse (p := fun _ k => k = known ∧ callee ∈ known) (fun isKnown => ⟨rfl, isKnown⟩)
      fun _ => ⟨rfl, fun place placed => placed.1⟩).bind ?_
    rintro _ k ⟨rfl, isKnown⟩
    exact (ensuresExprs args k).weaken (fun _ _ checked => ⟨checked.1, isKnown, checked.2⟩)
      fun _ _ ⟨use, located⟩ => ⟨use, fun place placed => located place placed.2⟩
  | .subscript object index span =>
    refine ((ensuresExpr object known).weaken (fun _ _ checked => checked)
      fun _ _ ⟨use, located⟩ => ⟨use, fun place placed => located place placed.2.1⟩).bind ?_
    rintro _ k ⟨rfl, first⟩
    exact (ensuresExpr index k).weaken (fun _ _ checked => ⟨checked.1, trivial, first, checked.2⟩)
      fun _ _ ⟨use, located⟩ => ⟨use, fun place placed => located place placed.2.2⟩
  | .unary op operand span =>
    exact (ensuresExpr operand known).weaken (fun _ _ checked => ⟨checked.1, trivial, checked.2⟩)
      fun _ _ ⟨use, located⟩ => ⟨use, fun place placed => located place placed.2⟩

theorem ensuresSlots (elements : List (Option Expr)) (known : List Text) :
    Ensures known (slots .standard elements)
      (fun _ k => k = known ∧ Expr.AllSlots (Expr.Knows known) True elements)
      fun f _ => NameFault f fun place => Expr.AllSlots (Expr.Placed place) True elements := by
  match elements with
  | [] => exact ensuresPure ⟨rfl, trivial⟩
  | none :: rest =>
    exact (ensuresSlots rest known).weaken (fun _ _ checked => ⟨checked.1, trivial, checked.2⟩)
      fun _ _ ⟨use, located⟩ => ⟨use, fun place placed => located place placed.2⟩
  | some e :: rest =>
    refine ((ensuresExpr e known).weaken (fun _ _ checked => checked)
      fun _ _ ⟨use, located⟩ => ⟨use, fun place placed => located place placed.1⟩).bind ?_
    rintro _ k ⟨rfl, first⟩
    exact (ensuresSlots rest k).weaken (fun _ _ checked => ⟨checked.1, first, checked.2⟩)
      fun _ _ ⟨use, located⟩ => ⟨use, fun place placed => located place placed.2⟩

theorem ensuresExprs (es : List Expr) (known : List Text) :
    Ensures known (exprs .standard es)
      (fun _ k => k = known ∧ Expr.AllArgs (Expr.Knows known) True es)
      fun f _ => NameFault f fun place => Expr.AllArgs (Expr.Placed place) True es := by
  match es with
  | [] => exact ensuresPure ⟨rfl, trivial⟩
  | e :: rest =>
    refine ((ensuresExpr e known).weaken (fun _ _ checked => checked)
      fun _ _ ⟨use, located⟩ => ⟨use, fun place placed => located place placed.1⟩).bind ?_
    rintro _ k ⟨rfl, first⟩
    exact (ensuresExprs rest k).weaken (fun _ _ checked => ⟨checked.1, first, checked.2⟩)
      fun _ _ ⟨use, located⟩ => ⟨use, fun place placed => located place placed.2⟩

end

theorem ensuresStatement (s : Statement) (known : List Text) :
    Ensures known (statement .standard s)
      (fun _ k => k = s.learned known ∧ s.expr.All (Expr.Knows known) True ∧
        ∀ t ∈ s.target?, t ∉ Builtin.names)
      fun f _ => NameFault f fun place => s.Placed place := by
  cases s with
  | expression e span =>
    exact (ensuresExpr e known).weaken
      (fun _ _ checked => ⟨checked.1, checked.2, fun t none => by cases none⟩)
      fun _ _ ⟨use, located⟩ => ⟨use, fun place placed => located place placed.2⟩
  | assignment target value span =>
    refine (ensuresTarget (p := fun _ k => k = known ∧ target ∉ Builtin.names)
      (fun free => ⟨rfl, free⟩) fun _ => ⟨rfl, fun place placed => placed.1⟩).bind ?_
    rintro _ k ⟨rfl, free⟩
    refine ((ensuresExpr value k).weaken (fun _ _ checked => checked)
      fun _ _ ⟨use, located⟩ => ⟨use, fun place placed => located place placed.2⟩).bind ?_
    rintro _ k ⟨rfl, uses⟩
    refine ensuresModify ⟨rfl, uses, fun t same => ?_⟩
    cases Option.some.inj same
    exact free

theorem ensuresStatements (ss : List Statement) (known : List Text) :
    Ensures known (statements .standard ss) (fun _ _ => Statement.AllKnown known ss)
      fun f _ => NameFault f fun place => ∀ s ∈ ss, s.Placed place := by
  induction ss generalizing known with
  | nil => exact ensuresPure trivial
  | cons s rest ih =>
    refine ((ensuresStatement s known).weaken (fun _ _ checked => checked)
      fun _ _ ⟨use, located⟩ =>
        ⟨use, fun place placed => located place (placed s List.mem_cons_self)⟩).bind ?_
    rintro _ k ⟨rfl, uses, free⟩
    exact (ih _).weaken (fun _ _ others => ⟨uses, free, others⟩) fun _ _ ⟨use, located⟩ =>
      ⟨use, fun place placed => located place fun t member => placed t (List.mem_cons_of_mem s member)⟩

end Check

def knownBehind (known : List Text) (ss : List Statement) : List Text :=
  ss.foldl Statement.learned known

theorem memDefine {known : List Text} {target n : Text} :
    n ∈ Environment.standard.define target known ↔ n ∈ known ∨ n = target := by
  simp only [Environment.standard, Environment.withBuiltins]
  split
  · rename_i there
    exact ⟨.inl, fun member => member.elim id fun same => same ▸ List.contains_iff_mem.mp there⟩
  · simp

theorem memLearned {known : List Text} {s : Statement} {n : Text} :
    n ∈ s.learned known ↔ n ∈ known ∨ s.target? = some n := by
  cases s with
  | expression e span => simp [Statement.learned, Statement.target?]
  | assignment target value span => simp [Statement.learned, Statement.target?, memDefine, eq_comm]

theorem memKnownBehind {known : List Text} {ss : List Statement} {n : Text} :
    n ∈ knownBehind known ss ↔ n ∈ known ∨ ∃ s ∈ ss, s.target? = some n := by
  induction ss generalizing known with
  | nil => simp [knownBehind]
  | cons s rest ih =>
    have behind : knownBehind known (s :: rest) = knownBehind (s.learned known) rest := rfl
    rw [behind, ih, memLearned, or_assoc]
    simp

theorem allKnownAt {known : List Text} {ss rest : List Statement} {s : Statement} {i : Nat}
    (accepted : Statement.AllKnown known ss) (here : ss.drop i = s :: rest) :
    s.expr.All (Expr.Knows (knownBehind known (ss.take i))) True := by
  induction ss generalizing known i with
  | nil => simp at here
  | cons t ss ih =>
    cases i with
    | zero =>
      cases here
      exact accepted.1
    | succ i => exact ih accepted.2.2 here

namespace Run

variable {σ : Type}

theorem acceptedKnown {ctx : Context σ} {script : Script} {bindings : Bindings Value}
    (accepted : checkNames ctx (.script script) bindings = .ok ()) :
    Statement.AllKnown (knownNames ctx bindings) script.statements := by
  rcases (Check.ensuresStatements script.statements (knownNames ctx bindings)).outcome with
    ⟨a, known, run, holds⟩ | ⟨f, known, run, _⟩
  · exact holds
  · simp [checkNames, Names.check, Check.node, run] at accepted

theorem refusedNames {ctx : Context σ} {script : Script} {bindings : Bindings Value} {f : Fault}
    (refused : checkNames ctx (.script script) bindings = .error f) :
    NameFault f fun place => ∀ s ∈ script.statements, s.Placed place := by
  rcases (Check.ensuresStatements script.statements (knownNames ctx bindings)).outcome with
    ⟨a, known, run, _⟩ | ⟨g, known, run, holds⟩
  · simp [checkNames, Names.check, Check.node, run] at refused
  · simp only [checkNames, Names.check, Check.node, run] at refused
    cases refused
    exact holds

end Run

end SeqScript
