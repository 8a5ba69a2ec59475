import SeqScript.Names

/-! Where the checks of names turn to their environment. A tree determines what is asked and in which
order, whatever the answers are. The check that lists all problems asks everything; the one that
stops at its first problem asks the same up to there. -/
namespace SeqScript

inductive Query where
  | use (name : Text) (span : Span)
  | target (name : Text) (span : Span)
  | define (name : Text)

variable {σ : Type}

namespace Query

def question : Query → Question
  | use name _ => .isDefined name
  | target name _ => .isBuiltin name
  | define name => .define name

def put (env : Environment σ) : Query → σ → Option Fault × σ
  | use name span => env.useProblem name span
  | target name span => env.targetProblem name span
  | define name => fun s => (none, env.define name s)

def first (env : Environment σ) : List Query → σ → Except Fault Unit × σ
  | [], s => (.ok (), s)
  | q :: rest, s =>
    match q.put env s with
    | (some f, t) => (.error f, t)
    | (none, t) => first env rest t

def all (env : Environment σ) : List Query → σ → List Fault × σ
  | [], s => ([], s)
  | q :: rest, s =>
    ((q.put env s).1.toList ++ (all env rest (q.put env s).2).1, (all env rest (q.put env s).2).2)

end Query

namespace Expr

mutual

def queries : Expr → List Query
  | literal _ _ => []
  | sequence _ elements _ => slotQueries elements
  | name n span => [.use n span]
  | call callee args span => .use callee span :: argQueries args
  | subscript object index _ => object.queries ++ index.queries
  | unary _ operand _ => operand.queries

def slotQueries : List (Option Expr) → List Query
  | [] => []
  | none :: rest => slotQueries rest
  | some e :: rest => e.queries ++ slotQueries rest

def argQueries : List Expr → List Query
  | [] => []
  | e :: rest => e.queries ++ argQueries rest

end

end Expr

def Statement.queries : Statement → List Query
  | .expression e _ => e.queries
  | .assignment target value span => .target target span :: (value.queries ++ [.define target])

def Node.queries : Node → List Query
  | .script s => s.statements.flatMap Statement.queries
  | .statement s => s.queries
  | .expression e => e.queries

namespace Check

variable (env : Environment σ)

def queries : List Query → Check σ Unit
  | [] => pure ()
  | q :: rest => do
    refuse (q.put env)
    queries rest

theorem queriesAppend (qs rs : List Query) :
    queries env (qs ++ rs) = do { queries env qs; queries env rs } := by
  induction qs with
  | nil => simp [queries]
  | cons q qs ih => simp [queries, ih]

theorem queriesOne (q : Query) : queries env [q] = refuse (q.put env) := by simp [queries]

theorem queriesDefine (name : Text) : queries env [.define name] = modify (env.define name) := by
  rw [queriesOne]
  rfl

mutual

theorem exprAsks (e : Expr) : expr env e = queries env e.queries := by
  match e with
  | .literal _ _ => rfl
  | .sequence _ elements _ => exact slotsAsk elements
  | .name n span => exact (queriesOne env (.use n span)).symm
  | .call callee args span => rw [expr, exprsAsk args]; rfl
  | .subscript object index _ => rw [expr, exprAsks object, exprAsks index, ← queriesAppend]; rfl
  | .unary _ operand _ => exact exprAsks operand

theorem slotsAsk (elements : List (Option Expr)) :
    slots env elements = queries env (Expr.slotQueries elements) := by
  match elements with
  | [] => rfl
  | none :: rest => exact slotsAsk rest
  | some e :: rest => rw [slots, exprAsks e, slotsAsk rest, ← queriesAppend]; rfl

theorem exprsAsk (es : List Expr) : exprs env es = queries env (Expr.argQueries es) := by
  match es with
  | [] => rfl
  | e :: rest => rw [exprs, exprAsks e, exprsAsk rest, ← queriesAppend]; rfl

end

theorem statementAsks (s : Statement) : statement env s = queries env s.queries := by
  cases s with
  | expression e _ => exact exprAsks env e
  | assignment target value span =>
    rw [statement, exprAsks, ← queriesDefine, ← queriesAppend]
    rfl

theorem statementsAsk (ss : List Statement) :
    statements env ss = queries env (ss.flatMap Statement.queries) := by
  induction ss with
  | nil => rfl
  | cons s rest ih => rw [statements, statementAsks, ih, ← queriesAppend, List.flatMap_cons]

theorem nodeAsks (n : Node) : node env n = queries env n.queries := by
  cases n with
  | script s => exact statementsAsk env s.statements
  | statement s => exact statementAsks env s
  | expression e => exact exprAsks env e

theorem runRefuse (problem : σ → Option Fault × σ) (s : σ) :
    (refuse problem).run.run s = match problem s with
      | (some f, t) => (.error f, t)
      | (none, t) => (.ok (), t) := by
  have asked : (modifyGet problem : Check σ (Option Fault)).run.run s =
      pure (.ok (problem s).1, (problem s).2) := rfl
  simp only [refuse, ExceptT.run_bind, StateT.run_bind, asked, pure_bind]
  rcases problem s with ⟨_ | f, t⟩ <;> rfl

theorem runQueries (qs : List Query) (s : σ) : (queries env qs).run.run s = Query.first env qs s := by
  induction qs generalizing s with
  | nil => rfl
  | cons q rest ih =>
    simp only [queries, ExceptT.run_bind, StateT.run_bind, runRefuse, Query.first]
    rcases q.put env s with ⟨_ | f, t⟩
    · exact ih t
    · rfl

end Check

namespace Names

variable (env : Environment σ)

theorem checkAsks (n : Node) (s : σ) : check env n s = Query.first env n.queries s := by
  rw [check, Check.nodeAsks, Check.runQueries]

def Findings.behind (f : Findings σ) (qs : List Query) : Findings σ :=
  ⟨(Query.all env qs f.state).2, f.found ++ (Query.all env qs f.state).1⟩

theorem behindNothing (f : Findings σ) : f.behind env [] = f := by
  simp [Findings.behind, Query.all]

theorem behindCons (f : Findings σ) (q : Query) (qs : List Query) :
    f.behind env (q :: qs) = (f.ask (q.put env)).behind env qs := by
  simp [Findings.behind, Findings.ask, Query.all]

theorem behindAppend (f : Findings σ) (qs rs : List Query) :
    f.behind env (qs ++ rs) = (f.behind env qs).behind env rs := by
  induction qs generalizing f with
  | nil => rw [List.nil_append, behindNothing]
  | cons q qs ih => rw [List.cons_append, behindCons, behindCons, ih]

theorem behindDefine (f : Findings σ) (name : Text) :
    f.behind env [.define name] = { f with state := env.define name f.state } := by
  simp [Findings.behind, Query.all, Query.put]

mutual

theorem walkExpr (e : Expr) (f : Findings σ) :
    e.walk (enter env) (exit env) f = f.behind env e.queries := by
  match e with
  | .literal _ _ => exact (behindNothing env f).symm
  | .sequence _ elements _ => exact walkSlots elements f
  | .name n span => exact ((behindCons env f (.use n span) []).trans (behindNothing env _)).symm
  | .call callee args span =>
    exact (walkArgs args _).trans (behindCons env f (.use callee span) _).symm
  | .subscript object index _ =>
    rw [Expr.queries, behindAppend, ← walkExpr object, ← walkExpr index]
    rfl
  | .unary _ operand _ => exact walkExpr operand f

theorem walkSlots (elements : List (Option Expr)) (f : Findings σ) :
    Expr.walkSlots (enter env) (exit env) elements f = f.behind env (Expr.slotQueries elements) := by
  match elements with
  | [] => exact (behindNothing env f).symm
  | none :: rest => exact walkSlots rest f
  | some e :: rest =>
    rw [Expr.slotQueries, behindAppend, ← walkExpr e, ← walkSlots rest, Expr.walkSlots]

theorem walkArgs (es : List Expr) (f : Findings σ) :
    Expr.walkAll (enter env) (exit env) es f = f.behind env (Expr.argQueries es) := by
  match es with
  | [] => exact (behindNothing env f).symm
  | e :: rest => rw [Expr.argQueries, behindAppend, ← walkExpr e, ← walkArgs rest, Expr.walkAll]

end

theorem walkStatement (s : Statement) (f : Findings σ) :
    s.walk (enter env) (exit env) f = f.behind env s.queries := by
  cases s with
  | expression e _ => exact walkExpr env e f
  | assignment target value span =>
    rw [Statement.queries, behindCons, behindAppend, ← walkExpr, behindDefine]
    rfl

theorem walkStatements (ss : List Statement) (f : Findings σ) :
    ss.foldl (fun f s => s.walk (enter env) (exit env) f) f =
      f.behind env (ss.flatMap Statement.queries) := by
  induction ss generalizing f with
  | nil => exact (behindNothing env f).symm
  | cons s rest ih =>
    rw [List.foldl_cons, ih, walkStatement, List.flatMap_cons, behindAppend]

theorem walkNode (n : Node) (f : Findings σ) :
    n.walk (enter env) (exit env) f = f.behind env n.queries := by
  cases n with
  | script s => exact walkStatements env s.statements f
  | statement s => exact walkStatement env s f
  | expression e => exact walkExpr env e f

theorem collectAsks (n : Node) (s : σ) : collect env n s = Query.all env n.queries s := by
  rw [collect, walkNode]
  rfl

end Names

namespace Query

variable (env : Environment σ)

theorem allAppend (qs rs : List Query) (s : σ) :
    all env (qs ++ rs) s =
      ((all env qs s).1 ++ (all env rs (all env qs s).2).1, (all env rs (all env qs s).2).2) := by
  induction qs generalizing s with
  | nil => rfl
  | cons q rest ih => simp [all, ih]

theorem firstOfAll (qs : List Query) (s : σ) (f : Fault) :
    (first env qs s).1 = .error f ↔ (all env qs s).1.head? = some f := by
  induction qs generalizing s with
  | nil => simp [first, all]
  | cons q rest ih =>
    simp only [first, all]
    rcases q.put env s with ⟨_ | g, t⟩
    · exact ih t
    · simp

/- As far as the first problem both go through the same states. -/
theorem firstState (qs : List Query) (s : σ) (accepted : (first env qs s).1 = .ok ()) :
    (first env qs s).2 = (all env qs s).2 := by
  induction qs generalizing s with
  | nil => rfl
  | cons q rest ih =>
    simp only [first, all] at accepted ⊢
    generalize q.put env s = answer at accepted ⊢
    obtain ⟨_ | f, t⟩ := answer
    · exact ih t accepted
    · cases accepted

theorem putRecorded (q : Query) (s : σ) (log : List Question) :
    q.put env.recorded (s, log) = ((q.put env s).1, (q.put env s).2, log ++ [q.question]) := by
  cases q <;> rfl

theorem allRecorded (qs : List Query) (s : σ) (log : List Question) :
    all env.recorded qs (s, log) =
      ((all env qs s).1, (all env qs s).2, log ++ qs.map question) := by
  induction qs generalizing s log with
  | nil => simp [all]
  | cons q rest ih => simp [all, putRecorded, ih]

theorem firstRecorded (qs : List Query) (s : σ) (log : List Question) :
    ∃ asked left, qs = asked ++ left ∧
      first env.recorded qs (s, log) =
        ((first env qs s).1, (first env qs s).2, log ++ asked.map question) ∧
      ((first env qs s).1 = .ok () → left = []) := by
  induction qs generalizing s log with
  | nil => exact ⟨[], [], rfl, by simp [first], fun _ => rfl⟩
  | cons q rest ih =>
    simp only [first, putRecorded]
    rcases q.put env s with ⟨_ | f, t⟩
    · obtain ⟨asked, left, rfl, same, nothing⟩ := ih t (log ++ [q.question])
      exact ⟨q :: asked, left, rfl, by simp [same], nothing⟩
    · exact ⟨[q], rest, rfl, rfl, fun accepted => by cases accepted⟩

end Query

namespace Names

/- In whatever environment, the check that stops refuses a tree exactly when the check that goes on
finds a problem, and then for the first one that it finds. The check that goes on asks all that the
tree determines; the one that stops asks the same from the start on, and all of it when it accepts. -/
theorem checksAgree (env : Environment σ) (n : Node) (s : σ) :
    (∀ f, (check env n s).1 = .error f ↔ (collect env n s).1.head? = some f) ∧
    ((check env n s).1 = .ok () → (check env n s).2 = (collect env n s).2) ∧
    ∀ log, ∃ asked left,
      check env.recorded n (s, log) = ((check env n s).1, (check env n s).2, log ++ asked) ∧
      collect env.recorded n (s, log) =
        ((collect env n s).1, (collect env n s).2, log ++ (asked ++ left)) ∧
      asked ++ left = n.queries.map Query.question ∧
      ((check env n s).1 = .ok () → left = []) := by
  simp only [checkAsks, collectAsks]
  refine ⟨Query.firstOfAll env n.queries s, Query.firstState env n.queries s, fun log => ?_⟩
  obtain ⟨asked, left, same, recorded, nothing⟩ := Query.firstRecorded env n.queries s log
  have whole : asked.map Query.question ++ left.map Query.question =
      n.queries.map Query.question := by rw [same, List.map_append]
  refine ⟨asked.map Query.question, left.map Query.question, recorded, ?_, whole, fun accepted => ?_⟩
  · rw [Query.allRecorded, whole]
  · rw [nothing accepted, List.map_nil]

end Names

end SeqScript
