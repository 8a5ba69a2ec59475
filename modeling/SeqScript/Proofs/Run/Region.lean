import SeqScript.Proofs.Run.Confinement

/-! What a run can reach with the builtins alone and listeners that only look on: scalars, tuples and
lists of its own domain. Such a run meets no list of another domain, and no frozen one. -/
namespace SeqScript
open Relation (ReflTransGen)
open Stepper (runFrom)

variable {σ : Type}

structure Listener.Quiet (listener : Listener σ) : Prop where
  goesOn : ∀ e s, (listener e s).1 = none
  heap : ∀ e (s : Store σ), s.heap.Spares (listener e s).2.heap
  bindings : ∀ e s, (listener e s).2.bindings = s.bindings

structure Context.Quiet (ctx : Context σ) : Prop where
  noHost : ∀ name f, ctx.functions.get? name ≠ some (.host f)
  listener : ∀ kind listener, ctx.listener kind = some listener → listener.Quiet

structure Fit (ctx : Context σ) (region : Ref → Prop) (s : State σ) : Prop where
  values : s.store.heap.Region ctx.domain region
  bindings : ∀ p ∈ s.store.bindings, p.2.In region
  free : s.store.heap.isFrozen ctx.domain = false
  issued : ctx.domain < s.store.heap.domains

variable {ctx : Context σ}

theorem Context.Quiet.keepsHeap (quiet : ctx.Quiet) : ctx.KeepsHeap where
  host name f _ _ there := absurd there (quiet.noHost name f)
  listener kind listener e s there := ((quiet.listener kind listener there).heap e s).keeps

theorem Effect.sameFrozen (quiet : ctx.Quiet) {s t : State σ} (effect : Effect ctx s t) {d : Domain}
    (there : d < s.store.heap.domains) :
    t.store.heap.isFrozen d = s.store.heap.isFrozen d := by
  cases effect with
  | noted => rfl
  | heard e heard => exact ((quiet.listener _ _ heard).heap e s.store).sameFrozen there
  | made o => rfl
  | extended allowed =>
    obtain ⟨_, rfl⟩ := Heap.extendAllowed allowed
    simp [State.withHeap, Heap.isFrozen]
  | aborted => rfl
  | called call host => exact absurd host (quiet.noHost _ _)

theorem Leads.sameFrozen (quiet : ctx.Quiet) {s t : State σ} (leads : Leads ctx s t) {d : Domain}
    (there : d < s.store.heap.domains) :
    t.store.heap.isFrozen d = s.store.heap.isFrozen d := by
  induction leads with
  | refl => rfl
  | tail before effect ih =>
    have keeps := (Leads.advances before).keeps quiet.keepsHeap
    exact (effect.sameFrozen quiet (Nat.lt_of_lt_of_le there keeps.domains)).trans ih

theorem Fit.neverFrozen (quiet : ctx.Quiet) {region : Ref → Prop} {s t : State σ}
    (fit : Fit ctx region s) (leads : Leads ctx s t) {r : Ref} (member : region r) :
    t.store.heap.isFrozenList r = false := by
  have keeps := leads.advances.keeps quiet.keepsHeap
  have owned := fit.values.owned r member
  unfold Heap.isFrozenList
  cases here : s.store.heap.get r with
  | tuple items => rw [keeps.tuples r items (fit.values.inside r member) here]
  | list owner items =>
    obtain ⟨items', there, _⟩ := keeps.lists r owner items here
    rw [here] at owned
    cases owned
    rw [there]
    exact (leads.sameFrozen quiet fit.issued).trans fit.free

def Fitting (ctx : Context σ) {α : Type} (region : Ref → Prop) (s : State σ) (m : Eval σ α)
    (p : α → (Ref → Prop) → Prop) : Prop :=
  Fit ctx region s → Ensures s m
    (fun a t => ∃ wider, (∀ r, region r → wider r) ∧ Fit ctx wider t ∧ p a wider) fun _ _ => True

theorem Context.Quiet.unaided (quiet : ctx.Quiet) : ctx.Unaided where
  noHost := quiet.noHost
  listener kind listener there :=
    { keeps := fun e s => ((quiet.listener kind listener there).heap e s).keeps
      objects := fun e s => ((quiet.listener kind listener there).heap e s).objects
      bindings := (quiet.listener kind listener there).bindings }

theorem Fit.confined {region wider : Ref → Prop} {s t : State σ} (fit : Fit ctx region s)
    (confined : Confined ctx region s wider t)
    (same : t.store.heap.isFrozen ctx.domain = s.store.heap.isFrozen ctx.domain) :
    Fit ctx wider t where
  values :=
    { inside := confined.encloses.values.inside
      owned := fun r member => by
        rcases confined.new r member with old | ⟨_, _, owned⟩
        · exact confined.keeps.owned (fit.values.inside r old) (fit.values.owned r old)
        · exact owned
      closed := confined.encloses.values.closed }
  bindings := confined.encloses.bindings
  free := same.trans fit.free
  issued := Nat.lt_of_lt_of_le fit.issued confined.keeps.domains

namespace Fitting

variable {α : Type} {region : Ref → Prop} {s : State σ} {m : Eval σ α}
  {p : α → (Ref → Prop) → Prop}

theorem confined (confining : Confining ctx region s m p)
    (same : ctx.domain < s.store.heap.domains → Ensures s m
      (fun _ t => t.store.heap.isFrozen ctx.domain = s.store.heap.isFrozen ctx.domain)
      fun _ _ => True) : Fitting ctx region s m p := fun fit =>
  ((confining ⟨fit.values.enclosed, fit.bindings⟩).and (same fit.issued)).weaken
    (fun _ _ ⟨⟨wider, confined, holds⟩, same⟩ =>
      ⟨wider, confined.more, fit.confined confined same, holds⟩)
    fun _ _ _ => trivial

theorem sameFrozen (quiet : ctx.Quiet) (leading : Leading ctx m)
    (there : ctx.domain < s.store.heap.domains) : Ensures s m
      (fun _ t => t.store.heap.isFrozen ctx.domain = s.store.heap.isFrozen ctx.domain)
      fun _ _ => True :=
  (leading s).weaken (fun _ _ leads => leads.sameFrozen quiet there) fun _ _ _ => trivial

theorem emit (quiet : ctx.Quiet) (kind : EventKind) (e : Event) :
    Fitting ctx region s (Eval.emit ctx kind e) fun _ _ => True :=
  confined (.emit quiet.unaided kind e) (sameFrozen quiet (.emit kind e))

theorem expr (quiet : ctx.Quiet) (e : Expr) (region : Ref → Prop) (s : State σ) :
    Fitting ctx region s (Eval.expr ctx e) fun v region => v.In region :=
  confined (.expr quiet.unaided e region s) (sameFrozen quiet (.expr e))

theorem exprs (quiet : ctx.Quiet) (es : List Expr) (region : Ref → Prop) (s : State σ) :
    Fitting ctx region s (Eval.exprs ctx es) fun vs region => ∀ v ∈ vs, v.In region :=
  confined (.exprs quiet.unaided es region s) (sameFrozen quiet (.exprs es))

theorem statement (quiet : ctx.Quiet) (statement : Statement) (region : Ref → Prop) (s : State σ) :
    Fitting ctx region s (Eval.statement ctx statement) fun v region => v.In region := by
  refine confined (.statement quiet.unaided statement region s) fun issued => ?_
  refine (Eval.ensuresChecked (p := fun _ t => t = s) (fun _ => rfl) fun _ => trivial).bind ?_
  rintro _ s rfl
  cases statement with
  | expression e span => exact sameFrozen quiet (.expr e) issued
  | assignment target value span =>
    exact (sameFrozen quiet (.expr value) issued).bind fun v u same => same

end Fitting

theorem Fitting.after {α : Type} {region : Ref → Prop} {s t : State σ} {m : Eval σ α} {a : α}
    {p : α → (Ref → Prop) → Prop} (fitting : Fitting ctx region s m p) (fit : Fit ctx region s)
    (run : runFrom s m = (.ok a, t)) : ∃ wider, Fit ctx wider t := by
  obtain ⟨wider, _, fit', _⟩ := (fitting fit).onOk run
  exact ⟨wider, fit'⟩

theorem Begins.fit (quiet : ctx.Quiet) {p : Part} {s t : State σ} {d : Expr}
    (begins : Begins ctx p s d t) (fit : ∃ region, Fit ctx region s) : ∃ region, Fit ctx region t := by
  have valued {e : Expr} {s u : State σ} {v : Value} (before : runFrom s (Eval.expr ctx e) = (.ok v, u))
      (fit : ∃ region, Fit ctx region s) : ∃ region, Fit ctx region u :=
    fit.elim fun region fit => (Fitting.expr quiet e region s).after fit before
  induction begins with
  | here => exact fit
  | index _ before _ ih => exact ih (valued before fit)
  | laterSlot _ before _ ih => exact ih (valued before fit)
  | laterArg before _ ih => exact ih (valued before fit)
  | element _ _ ih => exact ih fit
  | argument _ _ _ ih => exact ih fit
  | object _ _ ih => exact ih fit
  | operand _ _ ih => exact ih fit
  | firstSlot _ _ ih => exact ih fit
  | firstArg _ ih => exact ih fit

theorem Stage.fit (quiet : ctx.Quiet) {script : Script} {start s : State σ} {st : Stepper}
    (stage : Stage ctx script start st s) (goes : st.done = false)
    (fit : ∃ region, Fit ctx region start) : ∃ region, Fit ctx region s := by
  induction stage with
  | first => exact fit
  | @next st s result st' s' stage going stepped ih =>
    obtain ⟨statement, rest, u, v, w, x, remaining, _, started, valued, ended, rfl, rfl⟩ :=
      stepSucceeds going (stage.left going) stepped
    obtain ⟨_, fits⟩ := ih going
    obtain ⟨_, fits⟩ := (Fitting.emit quiet _ _).after fits started
    obtain ⟨_, fits⟩ := (Fitting.statement quiet statement _ _).after fits valued
    obtain ⟨region, fits⟩ := (Fitting.emit quiet _ _).after fits ended
    -- The last step freezes the domain, so the region fits only while statements are left.
    have more : rest.isEmpty = false := goes
    rw [more]
    exact ⟨region, fits⟩

theorem RunBegins.fit (quiet : ctx.Quiet) {script : Script} {start t : State σ} {i : Nat} {d : Expr}
    (begins : RunBegins ctx script start i d t) (fit : ∃ region, Fit ctx region start) :
    ∃ region, Fit ctx region t := by
  obtain ⟨statement, s, ⟨st, u, rest, stage, going, _, rfl, _, started, _⟩, inside⟩ := begins
  obtain ⟨_, fits⟩ := stage.fit quiet going fit
  exact inside.fit quiet ((Fitting.emit quiet _ _).after fits started)

end SeqScript
