import SeqScript.Proofs.Queries
import SeqScript.Proofs.Run.FailedSteps
import SeqScript.Proofs.Run.NameFailures

/-! Names that a run has found. A statement with a value has looked up every name in it, and what is
bound or can be called is known to the check, as far as hosts add nothing. So in statements that
complete the check, made before the run, misses no name. -/
namespace SeqScript
open Stepper (runFrom)

variable {σ : Type}

structure Context.AddsNoNames (ctx : Context σ) : Prop where
  host : ∀ name f call (s : Store σ) n, ctx.functions.get? name = some (.host f) →
    (f call s).2.bindings.contains n = true → s.bindings.contains n = true
  listener : ∀ kind listener e (s : Store σ) n, ctx.listener kind = some listener →
    (listener e s).2.bindings.contains n = true → s.bindings.contains n = true

def State.BoundIn (known : List Text) (s : State σ) : Prop :=
  ∀ n, s.store.bindings.contains n = true → n ∈ known

/-- Where all that is bound is known before a computation, so it is behind it; and a value tells
something about the tree that was evaluated. -/
def Learns (known : List Text) {α : Type} (m : Eval σ α) (told : Prop) : Prop :=
  ∀ s : State σ, s.BoundIn known →
    Ensures s m (fun _ t => t.BoundIn known ∧ told) fun _ t => t.BoundIn known

variable {ctx : Context σ} {known : List Text}

theorem Leads.boundIn (adds : ctx.AddsNoNames) {s t : State σ} (leads : Leads ctx s t)
    (within : s.BoundIn known) : t.BoundIn known := by
  have keeps : ctx.KeepsBindings fun b => ∀ n, b.contains n = true → n ∈ known := {
    host := fun _ _ _ _ there before n bound => before n (adds.host _ _ _ _ n there bound)
    listener := fun _ _ _ _ there before n bound => before n (adds.listener _ _ _ _ n there bound) }
  exact leads.keepsBindings keeps within

namespace Learns

variable {α β : Type} {told more : Prop}

theorem bind {m : Eval σ α} {f : α → Eval σ β} (first : Learns known m told)
    (second : told → ∀ a, Learns known (f a) more) : Learns known (m >>= f) more :=
  fun s within => Ensures.bind (first s within) fun a t ⟨within, fact⟩ => second fact a t within

theorem ofLeading (adds : ctx.AddsNoNames) {m : Eval σ α} (leading : Leading ctx m) :
    Learns known m True := fun s within =>
  (leading s).weaken (fun _ _ leads => ⟨Leads.boundIn adds leads within, trivial⟩)
    fun _ _ leads => Leads.boundIn adds leads within

theorem weaken {m : Eval σ α} (learns : Learns known m told) (weaker : told → more) :
    Learns known m more := fun s within =>
  (learns s within).weaken (fun _ _ both => ⟨both.1, weaker both.2⟩) fun _ _ within => within

theorem both {m : Eval σ α} {f : α → Eval σ β} (first : Learns known m told)
    (second : ∀ a, Learns known (f a) more) : Learns known (m >>= f) (told ∧ more) :=
  first.bind fun fact a => (second a).weaken fun other => ⟨fact, other⟩

theorem behind (adds : ctx.AddsNoNames) {m : Eval σ α} {f : α → Eval σ β} (leading : Leading ctx m)
    (second : ∀ a, Learns known (f a) told) : Learns known (m >>= f) told :=
  (ofLeading adds leading).bind fun _ a => second a

theorem before (adds : ctx.AddsNoNames) {m : Eval σ α} {f : α → Eval σ β}
    (first : Learns known m told) (leading : ∀ a, Leading ctx (f a)) :
    Learns known (m >>= f) told :=
  first.bind fun fact a => (ofLeading adds (leading a)).weaken fun _ => fact

theorem lookup (name : Text) (location : Option Location) :
    Learns known (Eval.lookup name location : Eval σ Value) (name ∈ known) := by
  intro s within
  refine Eval.ensuresStore ?_
  split
  · rename_i v found
    exact ensuresPure ⟨within, within name (by rw [Bindings.contains, found]; rfl)⟩
  · exact Eval.ensuresRaise within

theorem function (functions : ∀ n ∈ ctx.functions.names, n ∈ known) {name : Text}
    {location : Option Location} {f : Callable σ → Eval σ α}
    (rest : ∀ g, ctx.functions.get? name = some g → Learns known (f g) told) :
    Learns known (Eval.function ctx name location >>= f) (name ∈ known ∧ told) := by
  intro s within
  refine Eval.ensuresFunction (fun g there => ?_) fun _ => within
  have named : name ∈ known :=
    functions name ((Bindings.containsIff _ _).mp (by rw [Bindings.contains, there]; rfl))
  exact (rest g there).weaken (fun fact => ⟨named, fact⟩) s within

mutual

theorem expr (adds : ctx.AddsNoNames) (functions : ∀ n ∈ ctx.functions.names, n ∈ known) (e : Expr) :
    Learns known (Eval.expr ctx e) (e.All (Expr.Knows known) True) := by
  match e with
  | .literal v span =>
    exact (ofLeading adds (.expr (.literal v span))).weaken fun _ => trivial
  | .sequence kind elements span =>
    have inner := slots adds functions (.sequence kind elements span) 0 elements
    exact behind adds (.checkAborted _) fun _ =>
      before adds (inner.weaken fun all => ⟨trivial, all⟩) fun items => .allocSequence kind items
  | .name n span => exact behind adds (.checkAborted _) fun _ => lookup n _
  | .call callee args span =>
    exact behind adds (.checkAborted _) fun _ => function functions fun g there =>
      before adds (exprs adds functions args) fun vs => .invoke there vs _
  | .subscript object index span =>
    have inner := (expr adds functions object).both fun o =>
      before adds (expr adds functions index) fun i =>
        .heap fun h => .ofFault (Eval.elementAt h o i span.location?)
    exact behind adds (.checkAborted _) fun _ => inner.weaken fun all => ⟨trivial, all⟩
  | .unary op operand span =>
    have inner := before adds (expr adds functions operand) fun v =>
      .applyUnary op v span.location?
    exact behind adds (.checkAborted _) fun _ => inner.weaken fun all => ⟨trivial, all⟩

theorem slots (adds : ctx.AddsNoNames) (functions : ∀ n ∈ ctx.functions.names, n ∈ known)
    (literal : Expr) (index : Nat) (elements : List (Option Expr)) :
    Learns known (Eval.slots ctx literal index elements)
      (Expr.AllSlots (Expr.Knows known) True elements) := by
  match elements with
  | [] => exact (ofLeading adds (.pure _)).weaken fun _ => trivial
  | none :: rest =>
    exact behind adds (.checkAborted _) fun _ s within => Eval.ensuresRaise within
  | some e :: rest =>
    exact behind adds (.checkAborted _) fun _ => (expr adds functions e).both fun v =>
      before adds (slots adds functions literal (index + 1) rest) fun vs => .pure _

theorem exprs (adds : ctx.AddsNoNames) (functions : ∀ n ∈ ctx.functions.names, n ∈ known)
    (es : List Expr) :
    Learns known (Eval.exprs ctx es) (Expr.AllArgs (Expr.Knows known) True es) := by
  match es with
  | [] => exact (ofLeading adds (.pure _)).weaken fun _ => trivial
  | e :: rest =>
    exact (expr adds functions e).both fun v =>
      before adds (exprs adds functions rest) fun vs => .pure _

end

end Learns

theorem bindingIn {s : State σ} {target : Text} {v : Value} (within : s.BoundIn known) :
    (s.binding target v).BoundIn (Environment.standard.define target known) := by
  intro n bound
  rcases Bindings.memNamesSet.mp ((Bindings.containsIff _ _).mp bound) with before | rfl
  · exact memDefine.mpr (.inl (within n ((Bindings.containsIff _ _).mpr before)))
  · exact memDefine.mpr (.inr rfl)

theorem statementLearns (adds : ctx.AddsNoNames) (functions : ∀ n ∈ ctx.functions.names, n ∈ known)
    (statement : Statement) {s : State σ} (within : s.BoundIn known) :
    Ensures s (Eval.statement ctx statement)
      (fun _ t => t.BoundIn (statement.learned known) ∧ statement.expr.All (Expr.Knows known) True)
      fun _ t => t.BoundIn known := by
  refine (Learns.ofLeading adds (.checkAborted statement.span.location?) s within).bind
    fun _ t ⟨within, _⟩ => ?_
  cases statement with
  | expression e span => exact Learns.expr adds functions e t within
  | assignment target value span =>
    refine (Learns.expr adds functions value t within).bind fun v u ⟨within, all⟩ => ?_
    have bound : (u.binding target v).BoundIn (Environment.standard.define target known) ∧
        value.All (Expr.Knows known) True := ⟨bindingIn within, all⟩
    exact bound

/-- Where a stepper can be that a host calls over and over, whatever the answers are. Between two
calls the host may do anything but bind new names. -/
inductive Visited (ctx : Context σ) (script : Script) (start : State σ) : Stepper → State σ → Prop where
  | first : Visited ctx script start (.ofScript script) start
  | acted {st s} (visited : Visited ctx script start st s) (act : Store σ → Store σ)
      (adds : ∀ n, (act s.store).bindings.contains n = true → s.store.bindings.contains n = true) :
      Visited ctx script start st (s.acted act)
  | stepped {st s answer st' s'} (visited : Visited ctx script start st s)
      (step : Stepper.step ctx st s = (answer, st', s')) (ends : answer ≠ .error .stalled) :
      Visited ctx script start st' s'

def StatementCompletes (ctx : Context σ) (script : Script) (start : State σ) (i : Nat) : Prop :=
  ∃ st s statement rest begun v ended, Visited ctx script start st s ∧ st.done = false ∧
    st.index = i ∧ st.remaining = statement :: rest ∧ ¬ ctx.Aborted s ∧
    runFrom s (Eval.emit ctx .stepStart (.stepStart st.index st.total)) = (.ok (), begun) ∧
    runFrom begun (Eval.statement ctx statement) = (.ok v, ended)

structure KnownAt (script : Script) (known : List Text) (st : Stepper) (s : State σ) : Prop where
  left : st.remaining = script.statements.drop st.index
  within : s.BoundIn (knownBehind known (script.statements.take st.index))

theorem knownNext (known : List Text) {ss rest : List Statement} {statement : Statement} {i : Nat}
    (here : ss.drop i = statement :: rest) :
    ss.drop (i + 1) = rest ∧
      knownBehind known (ss.take (i + 1)) = statement.learned (knownBehind known (ss.take i)) := by
  obtain ⟨head, tail⟩ := dropNext here
  refine ⟨tail, ?_⟩
  rw [List.take_add_one, head]
  exact List.foldl_append

section Steps

variable {script : Script} {start : State σ}

theorem functionsKnown (ctx : Context σ) (bound : Bindings Value) :
    ∀ n ∈ ctx.functions.names, n ∈ Run.knownNames ctx bound :=
  fun _ member => List.mem_append_left _ (List.mem_append_right _ member)

theorem functionsBehind (functions : ∀ n ∈ ctx.functions.names, n ∈ known) (ss : List Statement) :
    ∀ n ∈ ctx.functions.names, n ∈ knownBehind known ss :=
  fun n member => memKnownBehind.mpr (.inl (functions n member))

theorem stepKnown (adds : ctx.AddsNoNames) (functions : ∀ n ∈ ctx.functions.names, n ∈ known)
    {st st' : Stepper} {s s' : State σ} {answer : Except Stop StepResult}
    (before : st.done = false → KnownAt script known st s)
    (step : Stepper.step ctx st s = (answer, st', s')) (ends : answer ≠ .error .stalled)
    (going : st'.done = false) : KnownAt script known st' s' := by
  rcases stepIdlesOrRuns step with ⟨_, rfl, _⟩ | ⟨statement, rest, begins, left, run⟩
  · cases going
  have here := before begins
  cases run with
  | aborted => cases going
  | unstarted _ started =>
    exact ⟨here.left, Leads.boundIn adds ((Leading.emit _ _).ran started) here.within⟩
  | stopped _ _ _ fails => cases (failFinal fails ends).1.symm.trans going
  | unended _ _ _ _ fails => cases (failFinal fails ends).1.symm.trans going
  | @valued begun v ended t _ started valued told =>
    have started := Leads.boundIn adds ((Leading.emit _ _).ran started) here.within
    have learned := (statementLearns adds (functionsBehind functions _) statement started).onOk valued
    have ended := Leads.boundIn adds ((Leading.emit _ _).ran told) learned.1
    obtain ⟨behind, further⟩ := knownNext known (here.left.symm.trans left)
    refine ⟨behind.symm, further ▸ ?_⟩
    split
    · exact ended
    · exact ended

theorem Visited.knownAt (adds : ctx.AddsNoNames) {st : Stepper} {s : State σ}
    (visited : Visited ctx script start st s) :
    st.done = false → KnownAt script (Run.knownNames ctx start.store.bindings) st s := by
  induction visited with
  | first =>
    exact fun _ => ⟨rfl, fun n bound => List.mem_append_right _ ((Bindings.containsIff _ _).mp bound)⟩
  | acted _ act adds ih =>
    exact fun going => ⟨(ih going).left, fun n bound => (ih going).within n (adds n bound)⟩
  | stepped _ step ends ih => exact stepKnown adds (functionsKnown ctx _) ih step ends

theorem StatementCompletes.knows (adds : ctx.AddsNoNames) {i : Nat}
    (completes : StatementCompletes ctx script start i) :
    ∃ statement rest, script.statements.drop i = statement :: rest ∧ statement.expr.All (Expr.Knows
      (knownBehind (Run.knownNames ctx start.store.bindings) (script.statements.take i))) True := by
  obtain ⟨st, s, statement, rest, begun, v, ended, visited, going, rfl, left, _, started, valued⟩ :=
    completes
  have here := visited.knownAt adds going
  have begun := Leads.boundIn adds ((Leading.emit _ _).ran started) here.within
  have learned :=
    (statementLearns adds (functionsBehind (functionsKnown ctx _) _) statement begun).onOk valued
  exact ⟨statement, rest, here.left.symm.trans left, learned.2⟩

end Steps

namespace Query

theorem useKnown {name : Text} {span : Span} (there : name ∈ known) :
    (use name span).put .standard known = (none, known) := by
  simp [put, Environment.standard, Environment.withBuiltins, Environment.useProblem, there]

mutual

theorem exprKnown {e : Expr} (knows : e.All (Expr.Knows known) True) :
    all .standard e.queries known = ([], known) := by
  match e with
  | .literal _ _ => rfl
  | .sequence _ elements _ => exact slotsKnown knows.2
  | .name n span =>
    have there : n ∈ known := knows
    simp [Expr.queries, all, useKnown there]
  | .call callee args span =>
    have there : callee ∈ known := knows.1
    simp [Expr.queries, all, useKnown there, argsKnown knows.2]
  | .subscript object index _ =>
    rw [Expr.queries, allAppend, exprKnown knows.2.1, exprKnown knows.2.2]
    rfl
  | .unary _ operand _ =>
    have inner := exprKnown knows.2
    exact inner

theorem slotsKnown {elements : List (Option Expr)}
    (knows : Expr.AllSlots (Expr.Knows known) True elements) :
    all .standard (Expr.slotQueries elements) known = ([], known) := by
  match elements with
  | [] => rfl
  | none :: rest =>
    have others := slotsKnown knows.2
    exact others
  | some e :: rest =>
    rw [Expr.slotQueries, allAppend, exprKnown knows.1, slotsKnown knows.2]
    rfl

theorem argsKnown {es : List Expr} (knows : Expr.AllArgs (Expr.Knows known) True es) :
    all .standard (Expr.argQueries es) known = ([], known) := by
  match es with
  | [] => rfl
  | e :: rest =>
    rw [Expr.argQueries, allAppend, exprKnown knows.1, argsKnown knows.2]
    rfl

end

theorem statementKnown {s : Statement} (knows : s.expr.All (Expr.Knows known) True) :
    (all .standard s.queries known).2 = s.learned known ∧
      ∀ f ∈ (all .standard s.queries known).1, f.cause.id ≠ .undefinedName := by
  cases s with
  | expression e span =>
    have uses : e.All (Expr.Knows known) True := knows
    rw [Statement.queries, exprKnown uses]
    exact ⟨rfl, List.forall_mem_nil _⟩
  | assignment target value span =>
    have uses : value.All (Expr.Knows known) True := knows
    have inner : all .standard (value.queries ++ [.define target]) known =
        ([], Environment.standard.define target known) := by
      rw [allAppend, exprKnown uses]
      rfl
    have asked : ((Query.target target span).put .standard known).2 = known := rfl
    simp only [Statement.queries, all, asked, inner, List.append_nil]
    refine ⟨rfl, fun f member => ?_⟩
    simp only [put, Environment.targetProblem] at member
    split at member
    · cases List.mem_singleton.mp member
      exact ErrorId.noConfusion
    · cases member

end Query

section Completed

variable {script : Script} {start : State σ}

theorem completedKnown (adds : ctx.AddsNoNames) (k : Nat)
    (completed : ∀ i < k, StatementCompletes ctx script start i) :
    let known := Run.knownNames ctx start.store.bindings
    let found := Query.all .standard ((script.statements.take k).flatMap Statement.queries) known
    found.2 = knownBehind known (script.statements.take k) ∧
      ∀ f ∈ found.1, f.cause.id ≠ .undefinedName := by
  induction k with
  | zero => exact ⟨rfl, List.forall_mem_nil _⟩
  | succ k ih =>
    obtain ⟨states, earlier⟩ := ih fun i less => completed i (Nat.lt_succ_of_lt less)
    obtain ⟨statement, rest, here, knows⟩ := (completed k (Nat.lt_succ_self k)).knows adds
    obtain ⟨learned, now⟩ := Query.statementKnown knows
    have next : script.statements.take (k + 1) = script.statements.take k ++ [statement] := by
      rw [List.take_add_one, (dropNext here).1]
      rfl
    have parts : (script.statements.take (k + 1)).flatMap Statement.queries =
        (script.statements.take k).flatMap Statement.queries ++ statement.queries := by
      rw [next, List.flatMap_append, List.flatMap_singleton]
    dsimp only
    rw [parts, Query.allAppend, states]
    refine ⟨learned.trans (knownNext _ here).2.symm, fun f member => ?_⟩
    exact (List.mem_append.mp member).elim (earlier f) (now f)

theorem Stage.visited {st : Stepper} {s : State σ} (stage : Stage ctx script start st s) :
    Visited ctx script start st s := by
  induction stage with
  | first => exact .first
  | next _ _ stepped ih => exact ih.stepped stepped nofun

theorem Stage.completes {st st' : Stepper} {s s' : State σ} (stage : Stage ctx script start st s)
    {n : Nat} (left : st.remaining.length = n)
    (ran : Stepper.stepAll ctx n st s = (.ok (), st', s')) {i : Nat} (behind : st.index ≤ i)
    (inside : i < script.statements.length) : StatementCompletes ctx script start i := by
  induction n generalizing st s with
  | zero =>
    rw [stage.position.1, List.length_drop] at left
    omega
  | succ n ih =>
    have some : st.remaining ≠ [] := fun none => by simp [none] at left
    have going : st.done = false := by
      rw [stage.position.2, List.isEmpty_eq_false_iff]
      exact some
    rw [Stepper.stepAll, going] at ran
    split at ran
    · contradiction
    split at ran
    · cases ran
    · rename_i result st₁ s₁ stepped
      obtain ⟨statement, rest, u, v, w, x, remaining, running, started, valued, _, rfl, _⟩ :=
        stepSucceeds going some stepped
      rcases Nat.lt_or_eq_of_le behind with later | rfl
      · rw [remaining] at left
        exact ih (stage.next going stepped) (Nat.succ.inj left) ran later
      · exact ⟨st, s, statement, rest, u, v, w, stage.visited, going, rfl, remaining, running,
          started, valued⟩

theorem executeCompletes {result : RunResult} {s : State σ}
    (ran : Run.execute ctx script start = (.ok result, s)) {i : Nat}
    (inside : i < script.statements.length) : StatementCompletes ctx script start i := by
  unfold Run.execute at ran
  dsimp only at ran
  split at ran
  · cases ran
  · cases ran
  · rename_i whole
    exact Stage.first.completes rfl whole (Nat.zero_le i) inside

/- Where hosts add no names, the check of a script finds no undefined name in the statements that
complete: what it finds is what it finds in them, and then what it finds behind them with what they
have taught it. A script that runs to its end has no undefined name at all. -/
theorem completedNamesFound (adds : ctx.AddsNoNames) (script : Script) (start : State σ) :
    let known := Run.knownNames ctx start.store.bindings
    (∀ k, (∀ i < k, StatementCompletes ctx script start i) →
      let first : Script := { script with statements := script.statements.take k }
      let last : Script := { script with statements := script.statements.drop k }
      let found := Names.collect .standard (.script first) known
      (Names.collect .standard (.script script) known).1 =
          found.1 ++ (Names.collect .standard (.script last) found.2).1 ∧
        ∀ f ∈ found.1, f.cause.id ≠ .undefinedName) ∧
    ∀ result s, Run.execute ctx script start = (.ok result, s) →
      ∀ f ∈ (Names.collect .standard (.script script) known).1, f.cause.id ≠ .undefinedName := by
  refine ⟨fun k completed => ?_, fun result s ran => ?_⟩
  · have parts := Query.allAppend .standard ((script.statements.take k).flatMap Statement.queries)
      ((script.statements.drop k).flatMap Statement.queries) (Run.knownNames ctx start.store.bindings)
    rw [← List.flatMap_append, List.take_append_drop] at parts
    refine ⟨?_, ?_⟩
    · simp only [Names.collectAsks, Node.queries, parts]
    · rw [Names.collectAsks]
      exact (completedKnown adds k completed).2
  · have all := (completedKnown adds script.statements.length fun i => executeCompletes ran).2
    rw [List.take_length] at all
    rw [Names.collectAsks]
    exact all

end Completed

theorem idlingAdds : idling.AddsNoNames where
  host name f call s n there bound := by
    cases idlingHost there
    exact bound
  listener kind listener e s n there bound := by cases there

def readsName (n : Text) : Script :=
  ⟨[.assignment (text "x") (.call (text "f") [] .synthetic) .synthetic,
    .expression (.name n .synthetic) .synthetic], .synthetic⟩

theorem laterNameMissing :
    idling.AddsNoNames ∧
    (∀ i < 1, StatementCompletes idling (readsName (text "y")) fresh i) ∧
    (∀ f ∈ (Names.collect .standard (.script { readsName (text "y") with
        statements := (readsName (text "y")).statements.take 1 })
        (Run.knownNames idling fresh.store.bindings)).1, f.cause.id ≠ .undefinedName) ∧
    ∃ result s, Run.execute idling (readsName (text "x")) fresh = (.ok result, s) ∧
      ∀ f ∈ (Names.collect .standard (.script (readsName (text "x")))
        (Run.knownNames idling fresh.store.bindings)).1, f.cause.id ≠ .undefinedName := by
  have completes : ∀ i < 1, StatementCompletes idling (readsName (text "y")) fresh i := by
    intro i less
    cases Nat.lt_one_iff.mp less
    exact ⟨_, _, _, _, _, _, _, .first, rfl, rfl, rfl, Bool.false_ne_true, rfl, rfl⟩
  obtain ⟨result, s, ran⟩ :
      ∃ result s, Run.execute idling (readsName (text "x")) fresh = (.ok result, s) := ⟨_, _, rfl⟩
  exact ⟨idlingAdds, completes,
    ((completedNamesFound idlingAdds (readsName (text "y")) fresh).1 1 completes).2,
    result, s, ran, (completedNamesFound idlingAdds (readsName (text "x")) fresh).2 result s ran⟩

def bindsY : Listener Unit := fun _ s => (none, { s with bindings := s.bindings.set (text "y") .none })

def bindingY : Context Unit :=
  { Context.plain 0 with listener := fun kind => if kind = .stepStart then some bindsY else none }

def yScript : Script := ⟨[.expression (.name (text "y") .synthetic) .synthetic], .synthetic⟩

theorem boundNameUndefined :
    bindingY.functions = Context.functionsWith [] ∧
    (∃ result s, Run.execute bindingY yScript blank = (.ok result, s)) ∧
    (Names.collect .standard (.script yScript) (Run.knownNames bindingY blank.store.bindings)).1 =
      [⟨.undefinedName (text "y"), none⟩] := ⟨rfl, ⟨_, _, rfl⟩, rfl⟩

end SeqScript
