import SeqScript.Proofs.Run.Stages

/-! Nodes that create something. The value of a literal, and of a call that makes a list, is an object
that nothing could refer to before. -/
namespace SeqScript
open Stepper (runFrom)

variable {σ : Type}

inductive Creates (ctx : Context σ) : SequenceKind → Expr → Part → Prop where
  | literal (kind : SequenceKind) (elements : List (Option Expr)) (span : Span) :
      Creates ctx kind (.sequence kind elements span)
        (.slots (.sequence kind elements span) 0 elements)
  | call {callee : Text} (args : List Expr) (span : Span)
      (there : ctx.functions.get? callee = some (.builtin .list)) :
      Creates ctx .list (.call callee args span) (.exprs args)

def NewSequence (ctx : Context σ) (kind : SequenceKind) (s : State σ) (v : Value) (t : State σ) :
    Prop :=
  ∃ r, v = .object r ∧ s.store.heap.holds r = false ∧ t.store.heap.holds r = true ∧
    t.store.heap.kind r = kind ∧ (t.store.heap.get r).OwnedBy ctx.domain

variable {ctx : Context σ}

theorem NewSequence.weaken {kind : SequenceKind} {s s' t t' : State σ} {v : Value}
    (new : NewSequence ctx kind s v t)
    (before : s'.store.heap.objects.size ≤ s.store.heap.objects.size)
    (behind : t.store.heap.Keeps t'.store.heap) : NewSequence ctx kind s' v t' := by
  obtain ⟨r, rfl, fresh, there, same, owned⟩ := new
  have inside : r < t.store.heap.objects.size := of_decide_eq_true there
  have absent : ¬ r < s.store.heap.objects.size := of_decide_eq_false fresh
  exact ⟨r, rfl, decide_eq_false fun old => absent (Nat.lt_of_lt_of_le old before),
    decide_eq_true (Nat.lt_of_lt_of_le inside behind.size), (behind.kind inside).trans same,
    behind.owned inside owned⟩

theorem Part.afterLeads (p : Part) (s : State σ) : Leads ctx s (p.after ctx s) := by
  cases p with
  | expr e => exact (Leading.expr e).run s
  | slots literal index elements => exact (Leading.slots literal index elements).run s
  | exprs es => exact (Leading.exprs es).run s

theorem Leading.ensuresKeeps {α : Type} {m : Eval σ α} (leading : Leading ctx m)
    (keeping : ctx.KeepsHeap) (s : State σ) :
    Ensures s m (fun _ t => s.store.heap.Keeps t.store.heap) fun _ _ => True :=
  (leading s).weaken (fun _ _ leads => leads.advances.keeps keeping) fun _ _ _ => trivial

namespace Eval

theorem allocNew (s : State σ) (kind : SequenceKind) (items : List Value) :
    Ensures s (allocSequence ctx kind items) (NewSequence ctx kind s) fun _ _ => True := by
  have fresh : s.store.heap.holds s.store.heap.objects.size = false :=
    decide_eq_false (Nat.lt_irrefl _)
  have there (o : Object) : (s.store.heap.alloc o).2.holds s.store.heap.objects.size = true := by
    simp [Heap.holds, Heap.alloc]
  have same (o : Object) : (s.store.heap.alloc o).2.get s.store.heap.objects.size = o :=
    Heap.getAllocNew s.store.heap o
  cases kind with
  | list =>
    exact ensuresAlloc ⟨_, rfl, fresh, there _, congrArg Object.kind (same _),
      (congrArg (Object.OwnedBy ctx.domain) (same _)).mpr rfl⟩
  | tuple =>
    exact ensuresAlloc ⟨_, rfl, fresh, there _, congrArg Object.kind (same _),
      (congrArg (Object.OwnedBy ctx.domain) (same _)).mpr trivial⟩

theorem listCreated (s : State σ) (args : List Value) (location : Option Location) :
    Ensures s (applyBuiltin ctx .list args location) (NewSequence ctx .list s) fun _ _ => True :=
  ensuresHeap (Ensures.bind (ensuresFault (p := fun _ t => t = s) (fun _ _ => rfl)
    fun _ _ => trivial) fun items _ same => same ▸ allocNew s .list items)

theorem createsNew (keeping : ctx.KeepsHeap) {kind : SequenceKind} {d : Expr} {parts : Part}
    (creates : Creates ctx kind d parts) (s : State σ) :
    Ensures s (expr ctx d) (NewSequence ctx kind (parts.after ctx s)) fun _ _ => True := by
  have checked (location : Option Location) :
      Ensures s (checkAborted ctx location) (fun _ t => t = s) fun _ _ => True :=
    ensuresChecked (fun _ => rfl) fun _ => trivial
  cases creates with
  | literal _ elements span =>
    refine (checked span.location?).bind ?_
    rintro _ s rfl
    refine Ensures.bindRan ((ensuresTrivial _).weaken (fun _ _ _ => trivial) fun _ _ _ => trivial)
      fun items t ran => ?_
    have behind : Part.after ctx s (.slots _ 0 elements) = t := congrArg Prod.snd ran
    rw [behind]
    exact allocNew t kind items
  | @call callee args span there =>
    refine (checked span.location?).bind ?_
    rintro _ s rfl
    refine ensuresFunction (fun g found => ?_) fun _ => trivial
    cases there.symm.trans found
    refine Ensures.bindRan ((ensuresTrivial _).weaken (fun _ _ _ => trivial) fun _ _ _ => trivial)
      fun vs t ran => ?_
    have behind : Part.after ctx s (.exprs args) = t := congrArg Prod.snd ran
    rw [behind]
    refine (Leading.ensuresKeeps (.emit .call (.call callee vs)) keeping t).bind fun _ u told => ?_
    refine (listCreated u vs span.location?).bind fun v w new => ?_
    refine (Leading.ensuresKeeps (.emit .returned (.returned callee v)) keeping w).bind
      fun _ x kept => ensuresPure ?_
    exact new.weaken told.size kept

end Eval

end SeqScript
