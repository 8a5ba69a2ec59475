import SeqScript.Proofs.Bindings
import SeqScript.Proofs.Names
import SeqScript.Proofs.Run.FailedSteps
import SeqScript.Proofs.Run.Reasons

/-! Names that fail while a script runs, after its names were accepted. The check knows one space of
names and a run has two, so a name can still be missing in one of them; it is then a name of the
other. -/
namespace SeqScript
open Relation (ReflTransGen)
open Stepper (runFrom)

variable {σ : Type}

structure Context.KeepsNames (ctx : Context σ) : Prop where
  host : ∀ name f call (s : Store σ) n, ctx.functions.get? name = some (.host f) →
    s.bindings.contains n = true → (f call s).2.bindings.contains n = true
  listener : ∀ kind listener e (s : Store σ) n, ctx.listener kind = some listener →
    s.bindings.contains n = true → (listener e s).2.bindings.contains n = true

/-- A name that is evaluated while it is not bound, or called while it has no function. -/
inductive Raises (ctx : Context σ) : Expr → State σ → Cause → Prop where
  | unbound {n span s} (runs : ¬ ctx.Aborted s) (missing : s.store.bindings.get? n = none) :
      Raises ctx (.name n span) s (.undefinedVariable n)
  | noFunction {callee args span s} (runs : ¬ ctx.Aborted s)
      (missing : ctx.functions.get? callee = none) :
      Raises ctx (.call callee args span) s (.undefinedFunction callee)

variable {ctx : Context σ}

theorem Raises.run {d : Expr} {s : State σ} {cause : Cause} (raises : Raises ctx d s cause) :
    runFrom s (Eval.expr ctx d) = (.error (.fault ⟨cause, d.span.location?⟩), s) := by
  have stops : Ensures s (Eval.expr ctx d) (fun _ _ => False)
      fun stop t => stop = .fault ⟨cause, d.span.location?⟩ ∧ t = s := by
    cases raises with
    | unbound runs missing =>
      refine (Eval.ensuresChecked (p := fun _ t => t = s) (fun _ => rfl)
        fun aborted => absurd aborted runs).bind ?_
      rintro _ _ rfl
      refine Eval.ensuresStore ?_
      rw [missing]
      exact Eval.ensuresRaise ⟨rfl, rfl⟩
    | noFunction runs missing =>
      refine (Eval.ensuresChecked (p := fun _ t => t = s) (fun _ => rfl)
        fun aborted => absurd aborted runs).bind ?_
      rintro _ _ rfl
      exact Eval.ensuresFunction (fun g there => by rw [missing] at there; cases there)
        fun _ => ⟨rfl, rfl⟩
  rcases stops.outcome with ⟨v, t, run, never⟩ | ⟨stop, t, run, rfl, rfl⟩
  · exact never.elim
  · exact run

namespace Context.KeepsNames

theorem advances (keeps : ctx.KeepsNames) {s t : State σ} (advances : Advances ctx s t) {n : Text}
    (bound : s.store.bindings.contains n = true) : t.store.bindings.contains n = true := by
  have keeping : ctx.KeepsBindings fun b => b.contains n = true :=
    ⟨fun _ _ _ _ there => keeps.host _ _ _ _ n there,
      fun _ _ _ _ there => keeps.listener _ _ _ _ n there⟩
  induction advances with
  | refl => exact bound
  | tail _ effect ih =>
    cases effect with
    | bound name v => exact Bindings.containsSet ih
    | froze => exact ih
    | evaluated effect => exact effect.keepsBindings keeping ih

end Context.KeepsNames

theorem assignmentBinds {target : Text} {value : Expr} {span : Span} {s t : State σ} {v : Value}
    (run : runFrom s (Eval.statement ctx (.assignment target value span)) = (.ok v, t)) :
    t.store.bindings.contains target = true := by
  have binds : Ensures s (Eval.statement ctx (.assignment target value span))
      (fun _ t => t.store.bindings.contains target = true) fun _ _ => True := by
    refine (ensuresTrivial _).bind fun _ u _ => (ensuresTrivial _).bind fun v w _ => ?_
    have bound : (w.binding target v).store.bindings.contains target = true := by
      simp [State.binding, Bindings.contains, Bindings.getSet]
    exact bound
  exact binds.onOk run

theorem Stage.stepBehind {script : Script} {start s s' : State σ} {st st' : Stepper}
    {result : StepResult} (stage : Stage ctx script start st s) (going : st.done = false)
    (stepped : Stepper.step ctx st s = (.ok result, st', s')) :
    ∃ statement u v w, script.statements[st.index]? = some statement ∧ st'.index = st.index + 1 ∧
      runFrom u (Eval.statement ctx statement) = (.ok v, w) ∧ Advances ctx w s' := by
  obtain ⟨statement, rest, u, v, w, x, remaining, _, _, valued, ended, rfl, rfl⟩ :=
    stepSucceeds going (stage.left going) stepped
  have told := Stepper.emitAdvances ctx .stepEnd (.stepEnd st.index st.total v) w
  rw [ended] at told
  refine ⟨statement, u, v, w, stage.here remaining, rfl, valued, told.trans ?_⟩
  split
  · exact .single (.froze x)
  · exact .refl

theorem Stage.namesBound (keeps : ctx.KeepsNames) {script : Script} {start s : State σ}
    {st : Stepper} (stage : Stage ctx script start st s) {n : Text}
    (named : n ∈ start.store.bindings.names ∨
      ∃ t ∈ script.statements.take st.index, t.target? = some n) :
    s.store.bindings.contains n = true := by
  induction stage with
  | first =>
    rcases named with initial | ⟨t, member, _⟩
    · exact (Bindings.containsIff _ _).mpr initial
    · simp [Stepper.ofScript] at member
  | @next st s result st' s' stage going stepped ih =>
    have kept (bound : s.store.bindings.contains n = true) : s'.store.bindings.contains n = true := by
      have whole := (advancesCarried ctx).step st s
      rw [stepped] at whole
      exact keeps.advances whole bound
    obtain ⟨statement, u, v, w, here, further, valued, behind⟩ := stage.stepBehind going stepped
    rcases named with initial | ⟨t, member, target⟩
    · exact kept (ih (.inl initial))
    · rw [further, List.take_add_one, here] at member
      rcases List.mem_append.mp member with earlier | now
      · exact kept (ih (.inr ⟨t, earlier, target⟩))
      · cases List.mem_singleton.mp now
        cases statement with
        | expression e span => cases target
        | assignment name value span =>
          cases Option.some.inj target
          exact keeps.advances behind (assignmentBinds valued)

theorem RunBegins.known {script : Script} {start t : State σ} {i : Nat} {d : Expr}
    (begins : RunBegins ctx script start i d t)
    (accepted : Run.checkNames ctx (.script script) start.store.bindings = .ok ()) :
    Expr.Knows (knownBehind (Run.knownNames ctx start.store.bindings) (script.statements.take i)) d := by
  obtain ⟨statement, s, ⟨st, u, rest, stage, _, remaining, rfl, _⟩, inside⟩ := begins
  have here := stage.position.1.symm.trans remaining
  exact (inside.all (allKnownAt (Run.acceptedKnown accepted) here)).root

theorem RunBegins.namesBound (keeps : ctx.KeepsNames) {script : Script} {start t : State σ}
    {i : Nat} {d : Expr} (begins : RunBegins ctx script start i d t) {n : Text}
    (named : n ∈ start.store.bindings.names ∨
      ∃ t ∈ script.statements.take i, t.target? = some n) :
    t.store.bindings.contains n = true := by
  obtain ⟨statement, s, ⟨st, u, rest, stage, _, _, rfl, _, started, _⟩, inside⟩ := begins
  have told := Stepper.emitAdvances ctx .stepStart (.stepStart st.index st.total) u
  rw [started] at told
  exact keeps.advances (told.trans inside.leads.advances) (stage.namesBound keeps named)

namespace Context

theorem memFunctionsWith {host : Bindings (HostFunction σ)} {n : Text} :
    n ∈ (functionsWith host).names ↔ n ∈ Builtin.names ∨ n ∈ host.names := by
  have added (fs : Bindings (Callable σ)) :
      n ∈ (host.foldl (fun fs p => fs.set p.1 (.host p.2)) fs).names ↔ n ∈ fs.names ∨ n ∈ host.names := by
    induction host generalizing fs with
    | nil => simp [Bindings.names]
    | cons p rest ih =>
      have here : n ∈ Bindings.names (p :: rest) ↔ n = p.1 ∨ n ∈ Bindings.names rest := by
        simp [Bindings.names]
      rw [List.foldl_cons, ih, Bindings.memNamesSet, here, or_assoc]
  have builtins : (builtinFunctions : Bindings (Callable σ)).names = Builtin.names := rfl
  rw [functionsWith, added, builtins]

theorem memKnown {host : Bindings (HostFunction σ)} (seeded : ctx.functions = functionsWith host)
    {bindings : Bindings Value} {ss : List Statement} {n : Text} :
    n ∈ knownBehind (Run.knownNames ctx bindings) ss ↔ n ∈ ctx.functions.names ∨
      n ∈ bindings.names ∨ ∃ s ∈ ss, s.target? = some n := by
  have builtin (there : n ∈ Builtin.names) : n ∈ ctx.functions.names :=
    seeded ▸ memFunctionsWith.mpr (.inl there)
  rw [memKnownBehind, Run.knownNames, List.mem_append, List.mem_append, or_assoc,
    or_iff_right_of_imp builtin]

end Context

def Fault.AboutNames (f : Fault) : Prop :=
  f.cause.id = .undefinedVariable ∨ f.cause.id = .undefinedFunction

theorem Fails.names {d : Expr} {t u : State σ} {f : Fault} (fails : Fails ctx d t (.fault f) u)
    (names : f.AboutNames) :
    ctx.Gives (.fault f) ∨ Raises ctx d t f.cause ∧ f.location = d.span.location? := by
  cases fails with
  | unbound runs missing => exact .inr ⟨.unbound runs missing, rfl⟩
  | noFunction runs missing => exact .inr ⟨.noFunction runs missing, rfl⟩
  | call valued leads reason =>
    cases reason with
    | given gives => exact .inl gives
    | mistyped typed => simp [Fault.AboutNames, typed.1] at names
    | frozen => simp [Fault.AboutNames, Cause.id] at names
    | aborted => simp [Fault.AboutNames, Cause.id] at names
    | timedOut => simp [Fault.AboutNames, Cause.id] at names
  | subscript refused =>
    have known := Eval.elementAtRefuses f refused
    rcases known.1 with same | same <;> simp [Fault.AboutNames, same] at names
  | aborted => simp [Fault.AboutNames, Cause.id] at names
  | hole => simp [Fault.AboutNames, Cause.id] at names
  | operand => simp [Fault.AboutNames, Cause.id] at names

section
variable {host : Bindings (HostFunction σ)} {script : Script} {start t : State σ} {i : Nat} {d : Expr}
  {n : Text}

theorem RunBegins.missingVariable (seeded : ctx.functions = Context.functionsWith host)
    (keeps : ctx.KeepsNames)
    (accepted : Run.checkNames ctx (.script script) start.store.bindings = .ok ())
    (begins : RunBegins ctx script start i d t) (raises : Raises ctx d t (.undefinedVariable n)) :
    t.store.bindings.contains n = false ∧ (n ∈ Builtin.names ∨ n ∈ host.names) := by
  have known := begins.known accepted
  cases raises with
  | unbound runs missing =>
    have unbound : t.store.bindings.contains n = false := by
      rw [Bindings.contains, missing]
      rfl
    refine ⟨unbound, ?_⟩
    rcases (Context.memKnown seeded).mp known with function | named
    · exact Context.memFunctionsWith.mp (seeded ▸ function)
    -- A variable among the known names would be bound here.
    · rw [begins.namesBound keeps named] at unbound
      cases unbound

theorem RunBegins.missingFunction (seeded : ctx.functions = Context.functionsWith host)
    (accepted : Run.checkNames ctx (.script script) start.store.bindings = .ok ())
    (begins : RunBegins ctx script start i d t) (raises : Raises ctx d t (.undefinedFunction n)) :
    ctx.functions.contains n = false ∧ (n ∈ start.store.bindings.names ∨
      ∃ s ∈ script.statements.take i, s.target? = some n) := by
  have known := begins.known accepted
  cases raises with
  | noFunction runs missing =>
    have absent : ctx.functions.contains n = false := by
      rw [Bindings.contains, missing]
      rfl
    refine ⟨absent, ((Context.memKnown seeded).mp known).resolve_left fun function => ?_⟩
    rw [(Bindings.containsIff _ _).mpr function] at absent
    cases absent

end

/- Where the names of a script were accepted, a variable that is missing in its run is the name of a
builtin or of a host function, and a function that is missing is the name of an initial variable or
of the target of an earlier statement. A run that ends with such a fault has come to its node,
unless the fault comes from outside. -/
theorem missingNames {host : Bindings (HostFunction σ)}
    (seeded : ctx.functions = Context.functionsWith host) (keeps : ctx.KeepsNames)
    {script : Script} {start : State σ}
    (accepted : Run.checkNames ctx (.script script) start.store.bindings = .ok ()) :
    (∀ i d t cause, RunBegins ctx script start i d t → Raises ctx d t cause →
      runFrom t (Eval.expr ctx d) = (.error (.fault ⟨cause, d.span.location?⟩), t) ∧
      (∀ n, cause = .undefinedVariable n →
        t.store.bindings.contains n = false ∧ (n ∈ Builtin.names ∨ n ∈ host.names)) ∧
      ∀ n, cause = .undefinedFunction n →
        ctx.functions.contains n = false ∧ (n ∈ start.store.bindings.names ∨
          ∃ s ∈ script.statements.take i, s.target? = some n)) ∧
    ∀ f s, Run.execute ctx script start = (.error (.fault f), s) → f.AboutNames →
      ctx.Gives (.fault f) ∨ ctx.Gives (.unreadable (.fault f)) ∨
        ∃ i d t, RunBegins ctx script start i d t ∧ Raises ctx d t f.cause ∧
          f.location = d.span.location? := by
  refine ⟨fun i d t cause begins raises => ⟨raises.run, ?_, ?_⟩, fun f s run names => ?_⟩
  · rintro n rfl
    exact begins.missingVariable seeded keeps accepted raises
  · rintro n rfl
    exact begins.missingFunction seeded accepted raises
  · obtain steps | ⟨kind, name, same, _⟩ := Run.executeBlamed run
    · cases steps with
      | given gives => exact .inl gives
      | unread gives => exact .inr (.inl gives)
      | aborted member aborted => simp [Fault.AboutNames, Cause.id] at names
      | node begins fails =>
        rcases fails.names names with gives | ⟨raises, place⟩
        · exact .inl gives
        · exact .inr (.inr ⟨_, _, _, begins, raises, place⟩)
    · cases same

def idle : HostFunction Unit := fun _ s => (.value .none, s)

def idling : Context Unit :=
  { Context.plain 0 with functions := Context.functionsWith [(text "f", idle)] }

def callsVariable : Script :=
  ⟨[.assignment (text "x") (.call (text "f") [] .synthetic) .synthetic,
    .expression (.call (text "x") [] .synthetic) .synthetic], .synthetic⟩

def fresh : State Unit := ⟨⟨.empty, [], false, ()⟩, []⟩

theorem idlingHost {name : Text} {f : HostFunction Unit}
    (there : idling.functions.get? name = some (.host f)) : f = idle := by
  have seeded : idling.functions = Context.functionsWith [(text "f", idle)] := rfl
  exact Context.hostFound there seeded

theorem idlingKeeps : idling.KeepsNames where
  host name f call s n there bound := by
    cases idlingHost there
    exact bound
  listener kind listener e s n there bound := by cases there

theorem idlingGives (stop : Stop) : ¬ idling.Gives stop := by
  rintro (⟨_, _, _, _, there, _⟩ | ⟨name, f, call, s, there, answer⟩)
  · cases there
  · cases idlingHost there
    rcases answer with answer | answer <;> cases answer

theorem calledVariableMissing :
    Run.checkNames idling (.script callsVariable) fresh.store.bindings = .ok () ∧
    ∃ i d t, RunBegins idling callsVariable fresh i d t ∧
      Raises idling d t (.undefinedFunction (text "x")) ∧ (text "x" ∈ fresh.store.bindings.names ∨
        ∃ s ∈ callsVariable.statements.take i, s.target? = some (text "x")) := by
  have accepted : Run.checkNames idling (.script callsVariable) fresh.store.bindings = .ok () := rfl
  have seeded : idling.functions = Context.functionsWith [(text "f", idle)] := rfl
  have missing := missingNames seeded idlingKeeps accepted
  obtain ⟨s, run⟩ : ∃ s, Run.execute idling callsVariable fresh =
      (.error (.fault ⟨.undefinedFunction (text "x"), none⟩), s) := ⟨_, rfl⟩
  rcases missing.2 _ s run (.inr rfl) with gives | gives | ⟨i, d, t, begins, raises, _⟩
  · exact absurd gives (idlingGives _)
  · exact absurd gives (idlingGives _)
  · exact ⟨accepted, i, d, t, begins, raises, ((missing.1 i d t _ begins raises).2.2 _ rfl).2⟩

def forgets : Listener Unit := fun _ s => (none, { s with bindings := [] })

def forgetting : Context Unit :=
  { Context.plain 0 with listener := fun kind => if kind = .stepStart then some forgets else none }

def seededX : State Unit := ⟨⟨Heap.empty.newDomain.2, [(text "x", .none)], false, ()⟩, []⟩

theorem forgottenNameMissing :
    forgetting.functions = Context.functionsWith [] ∧
    Run.checkNames forgetting (.script xScript) seededX.store.bindings = .ok () ∧
    (Run.execute forgetting xScript seededX).1 =
      .error (.fault ⟨.undefinedVariable (text "x"), none⟩) ∧
    text "x" ∉ Builtin.names := ⟨rfl, rfl, rfl, by decide⟩

end SeqScript
