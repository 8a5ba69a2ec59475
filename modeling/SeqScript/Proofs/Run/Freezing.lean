import SeqScript.Proofs.Run.NewSequences
import SeqScript.Proofs.Value.Change

/-! Freezing. A run that ends leaves its domain frozen, new lists belong to the domain of the context
that made them, and nothing that happens later changes a list of a frozen domain. -/
namespace SeqScript
open Relation (ReflTransGen)
open Stepper (runFrom)

variable {σ : Type}

structure Context.Orderly (ctx : Context σ) : Prop where
  host : ∀ name f call (s : Store σ), ctx.functions.get? name = some (.host f) →
    s.heap.Evolves (f call s).2.heap
  listener : ∀ kind listener e (s : Store σ), ctx.listener kind = some listener →
    s.heap.Evolves (listener e s).2.heap

variable {ctx : Context σ}

theorem Context.Orderly.keepsHeap (orderly : ctx.Orderly) : ctx.KeepsHeap where
  host name f call s there := (orderly.host name f call s there).keeps
  listener kind listener e s there := (orderly.listener kind listener e s there).keeps

theorem Leads.keeps (orderly : ctx.Orderly) {s t : State σ} (leads : Leads ctx s t) :
    s.store.heap.Keeps t.store.heap := leads.advances.keeps orderly.keepsHeap

/-- What may happen to a heap: its own operations, calls, evaluations, steps and runs in any context,
and each single effect of a run. -/
inductive Operation : Heap → Heap → Prop where
  | changed {h h'} (change : Heap.Change h h') : Operation h h'
  | effect {σ : Type} {ctx : Context σ} {s t : State σ} (orderly : ctx.Orderly)
      (effect : RunEffect ctx s t) : Operation s.store.heap t.store.heap
  | builtin {σ : Type} {ctx : Context σ} (orderly : ctx.Orderly) (b : Builtin) (args : List Value)
      (location : Option Location) (s : State σ) :
      Operation s.store.heap (runFrom s (Eval.applyBuiltin ctx b args location)).2.store.heap
  | call {σ : Type} {ctx : Context σ} (orderly : ctx.Orderly) {name f}
      (there : ctx.functions.get? name = some f) (args : List Value) (location : Option Location)
      (s : State σ) :
      Operation s.store.heap (runFrom s (Eval.invoke ctx f name args location)).2.store.heap
  | evaluate {σ : Type} {ctx : Context σ} (orderly : ctx.Orderly) (e : Expr) (s : State σ) :
      Operation s.store.heap (Run.evaluate ctx e s).2.store.heap
  | step {σ : Type} {ctx : Context σ} (orderly : ctx.Orderly) (st : Stepper) (s : State σ) :
      Operation s.store.heap (Stepper.step ctx st s).2.2.store.heap
  | execute {σ : Type} {ctx : Context σ} (orderly : ctx.Orderly) (script : Script) (s : State σ) :
      Operation s.store.heap (Run.execute ctx script s).2.store.heap

abbrev Operations : Heap → Heap → Prop := ReflTransGen Operation

theorem Operation.keeps {h h' : Heap} (operation : Operation h h') : h.Keeps h' := by
  cases operation with
  | changed change => exact change.keeps
  | effect orderly effect => exact effect.keeps orderly.keepsHeap
  | builtin orderly b args location s => exact ((Leading.applyBuiltin b args location).run s).keeps orderly
  | call orderly there args location s => exact ((Leading.invoke there args location).run s).keeps orderly
  | evaluate orderly e s => exact (Run.evaluateLeads _ e s).keeps orderly
  | step orderly st s => exact ((advancesCarried _).step st s).keeps orderly.keepsHeap
  | execute orderly script s => exact ((advancesCarried _).execute script s).keeps orderly.keepsHeap

theorem Operations.keeps {h h' : Heap} (operations : Operations h h') : h.Keeps h' := by
  induction operations with
  | refl => exact .refl h
  | tail _ operation ih => exact ih.trans operation.keeps

theorem Advances.operations (orderly : ctx.Orderly) {s t : State σ} (advances : Advances ctx s t) :
    Operations s.store.heap t.store.heap := by
  induction advances with
  | refl => exact .refl
  | tail _ effect ih => exact ih.tail (.effect orderly effect)

inductive MakesList (ctx : Context σ) : Expr → Prop where
  | literal (elements : List (Option Expr)) (span : Span) :
      MakesList ctx (.sequence .list elements span)
  | call {callee : Text} (args : List Expr) (span : Span)
      (there : ctx.functions.get? callee = some (.builtin .list)) :
      MakesList ctx (.call callee args span)

def NewList (ctx : Context σ) (s : State σ) (v : Value) (t : State σ) : Prop :=
  ∃ r items, v = .object r ∧ s.store.heap.objects.size ≤ r ∧
    t.store.heap.get r = .list ctx.domain items

theorem NewSequence.list {s t : State σ} {v : Value} (new : NewSequence ctx .list s v t) :
    NewList ctx s v t := by
  obtain ⟨r, rfl, fresh, _, kind, owned⟩ := new
  have absent : ¬ r < s.store.heap.objects.size := of_decide_eq_false fresh
  cases there : t.store.heap.get r with
  | tuple items =>
    rw [Heap.kind, there] at kind
    cases kind
  | list owner items =>
    rw [there] at owned
    cases owned
    exact ⟨r, items, rfl, Nat.le_of_not_lt absent, there⟩

theorem MakesList.creates {d : Expr} (makes : MakesList ctx d) :
    ∃ parts, Creates ctx .list d parts := by
  cases makes with
  | literal elements span => exact ⟨_, .literal .list elements span⟩
  | call args span there => exact ⟨_, .call args span there⟩

namespace Eval

theorem listNew (s : State σ) (args : List Value) (location : Option Location) :
    Ensures s (applyBuiltin ctx .list args location) (NewList ctx s) fun _ _ => True :=
  (listCreated s args location).weaken (fun _ _ new => new.list) fun _ _ _ => trivial

theorem makesNew (orderly : ctx.Orderly) {d : Expr} (makes : MakesList ctx d) (s : State σ) :
    Ensures s (expr ctx d) (NewList ctx s) fun _ _ => True := by
  obtain ⟨parts, creates⟩ := makes.creates
  have grown := ((parts.afterLeads s).keeps orderly).size
  exact (createsNew orderly.keepsHeap creates s).weaken
    (fun _ _ new => (new.weaken grown (.refl _)).list) fun _ _ _ => trivial

end Eval

namespace Run

theorem executeFreezes (ctx : Context σ) (script : Script) (s : State σ)
    (settles : (execute ctx script s).1 ≠ .error .stalled) :
    (execute ctx script s).2.store.heap.isFrozen ctx.domain = true := by
  unfold execute at *
  dsimp only at *
  split <;> rename_i ran
  · rw [ran] at settles
    exact absurd rfl settles
  · simp [Stepper.freeze, Heap.freeze, Heap.isFrozen]
  · simp [Stepper.freeze, Heap.freeze, Heap.isFrozen]

end Run

/- Once a run has ended, whatever its outcome, the domain of its context is frozen. The lists that
literals and the builtin make belong to that domain, and all that a run or a host does later leaves
every list with its owner and every list of a frozen domain with its items. Lists of other domains
can still change. -/
theorem frozenForGood :
    (∀ (σ : Type) (ctx : Context σ) (script : Script) (s : State σ),
      (Run.execute ctx script s).1 ≠ .error .stalled →
      (Run.execute ctx script s).2.store.heap.isFrozen ctx.domain = true) ∧
    (∀ (σ : Type) (ctx : Context σ) (s t : State σ) (d : Expr) (v : Value), ctx.Orderly →
      MakesList ctx d → runFrom s (Eval.expr ctx d) = (.ok v, t) → NewList ctx s v t) ∧
    (∀ (σ : Type) (ctx : Context σ) (s t : State σ) (args : List Value)
      (location : Option Location) (v : Value),
      runFrom s (Eval.applyBuiltin ctx .list args location) = (.ok v, t) → NewList ctx s v t) ∧
    (∀ (σ : Type) (ctx : Context σ) (script : Script) (start t : State σ) (i : Nat) (d : Expr),
      ctx.Orderly → RunBegins ctx script start i d t →
      Operations (runFrom t (Eval.expr ctx d)).2.store.heap
        (Run.execute ctx script start).2.store.heap) ∧
    (∀ h h' : Heap, Operations h h' →
      (∀ r owner items, h.get r = .list owner items → ∃ items', h'.get r = .list owner items') ∧
      ∀ domain, h.isFrozen domain = true → h'.isFrozen domain = true ∧
        ∀ r items, h.get r = .list domain items → h'.get r = .list domain items) ∧
    ∀ (h : Heap) (r : Ref) (owner : Domain) (items : List Value) (v : Value)
      (location : Option Location), h.get r = .list owner items → h.isFrozen owner = false →
      ∃ h', h.append r v location = .ok h' ∧ h'.get r = .list owner (items ++ [v]) := by
  refine ⟨fun σ ctx script s settles => Run.executeFreezes ctx script s settles,
    fun σ ctx s t d v orderly makes run => (Eval.makesNew orderly makes s).onOk run,
    fun σ ctx s t args location v run => (Eval.listNew s args location).onOk run,
    fun σ ctx script start t i d orderly begins => begins.goesOn.operations orderly,
    fun h h' operations => ⟨fun r owner items there => ?_, fun domain frozen =>
      ⟨operations.keeps.frozen domain frozen, fun r items there => ?_⟩⟩,
    fun h r owner items v location there free => ?_⟩
  · obtain ⟨items', there', _⟩ := operations.keeps.lists r owner items there
    exact ⟨items', there'⟩
  · obtain ⟨items', there', same⟩ := operations.keeps.lists r domain items there
    rw [there', same frozen]
  · have notFrozen : h.isFrozenList r = false := by simp [Heap.isFrozenList, there, free]
    refine ⟨h.setItems r (h.items r ++ [v]), ?_, ?_⟩
    · simp [Heap.append, Heap.extend, Heap.mutable, notFrozen, bind, Except.bind, pure, Except.pure]
    · rw [Heap.getSetItems, if_pos rfl, there]
      simp [Heap.items, there, Object.items]

theorem plainOrderly (domain : Domain) : (Context.plain domain : Context Unit).Orderly where
  host name f call s there := by
    obtain ⟨b, same⟩ := Context.builtinFound there
    cases same
  listener kind listener e s there := by cases there

def oneElement : Expr := .sequence .list [some (.literal .none .synthetic)] .synthetic

def literalScript : Script := ⟨[.expression oneElement .synthetic], .synthetic⟩

def blank : State Unit := ⟨⟨Heap.empty.newDomain.2, [], false, ()⟩, []⟩

def appendsToX : Script :=
  ⟨[.expression (.call (text "append") [.name (text "x") .synthetic, .literal .none .synthetic]
    .synthetic) .synthetic], .synthetic⟩

/-- A later run, in a domain of its own, that is given the first object of a heap. -/
def givenFirst (h : Heap) : State Unit :=
  ⟨⟨h.newDomain.2, [(text "x", .object 0)], false, ()⟩, []⟩

theorem literalFrozen :
    ∃ h : Heap, (Run.execute (Context.plain 0) literalScript blank).2.store.heap = h ∧
      h.isFrozen 0 = true ∧ h.get 0 = .list 0 [.none] ∧
      (∃ t, NewList (Context.plain 0) blank (.object 0) t ∧ Operations t.store.heap h) ∧
      (∃ t, NewList (Context.plain 0) blank (.object 0) t ∧ t.store.heap.isFrozen 0 = false ∧
        ∃ h', t.store.heap.append 0 .none none = .ok h' ∧ h'.get 0 = .list 0 [.none]) ∧
      ∃ t, Run.execute (Context.plain 1) appendsToX (givenFirst h) =
          (.error (.fault ⟨.frozenList, none⟩), t) ∧
        Operations h t.store.heap ∧ t.store.heap.get 0 = .list 0 [.none] := by
  obtain ⟨settled, literal, builtin, goesOn, stays, changes⟩ := frozenForGood
  have orderly := plainOrderly 0
  have ended : ∃ result, (Run.execute (Context.plain 0) literalScript blank).1 = .ok result := ⟨_, rfl⟩
  have frozen := settled Unit (Context.plain 0) literalScript blank (by
    obtain ⟨result, same⟩ := ended
    rw [same]
    intro never
    cases never)
  have runs : ¬ (Context.plain 0 : Context Unit).Aborted blank := by
    simp [Context.Aborted, Context.plain]
  have begins : RunBegins (Context.plain 0) literalScript blank 0 oneElement blank :=
    ⟨_, blank, ⟨.ofScript literalScript, blank, [], .first, rfl, rfl, rfl, runs, rfl, runs⟩, .here _ _⟩
  let h := (Run.execute (Context.plain 0) literalScript blank).2.store.heap
  obtain ⟨t, refused⟩ : ∃ t, Run.execute (Context.plain 1) appendsToX (givenFirst h) =
      (.error (.fault ⟨.frozenList, none⟩), t) := ⟨_, rfl⟩
  have later : Operations h t.store.heap := by
    have tried := Operation.execute (plainOrderly 1) appendsToX (givenFirst h)
    rw [refused] at tried
    exact (ReflTransGen.single (.changed (.opened _))).tail tried
  refine ⟨_, rfl, frozen, rfl, ⟨_, literal Unit _ blank _ oneElement _ orderly (.literal _ _) rfl,
    goesOn Unit _ literalScript blank blank 0 oneElement orderly begins⟩,
    ⟨_, builtin Unit _ blank _ [] none _ rfl, rfl, ?_⟩,
    t, refused, later, ((stays _ _ later).2 0 frozen).2 0 _ rfl⟩
  exact changes _ 0 0 [] .none none rfl rfl

end SeqScript
