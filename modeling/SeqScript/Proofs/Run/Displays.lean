import SeqScript.Proofs.Run.Begins
import SeqScript.Proofs.Value.Built

/-! Evaluating displays. A tree of constants and full sequences runs to a value that it builds, by
allocations alone. So a literal, a list or a tuple of them, at any depth, comes to a value that is
written as the tree is printed. -/
namespace SeqScript
open Stepper (runFrom)

variable {σ : Type}

namespace Eval

variable {ctx : Context σ}

theorem runSequence (ctx : Context σ) (kind : SequenceKind) (items : List Value) (s : State σ) :
    ∃ o, o.kind = kind ∧ o.items = items ∧ runFrom s (allocSequence ctx kind items) =
      (.ok (.object (s.store.heap.alloc o).1), s.withHeap (s.store.heap.alloc o).2) := by
  cases kind with
  | list => exact ⟨.list ctx.domain items, rfl, rfl, rfl⟩
  | tuple => exact ⟨.tuple items, rfl, rfl, rfl⟩

theorem runConstant {e : Expr} {c : Scalar} (constant : e.constant? = some c) {s : State σ}
    (running : ¬ ctx.Aborted s) : runFrom s (expr ctx e) = (.ok (.scalar c), s) := by
  have literal (d : Scalar) (span : Span) :
      runFrom s (expr ctx (.literal d span)) = (.ok (.scalar d), s) := by
    rw [expr]
    exact runChecked running
  cases e with
  | literal d span =>
    cases Option.some.inj constant
    exact literal c span
  | unary op operand span =>
    cases op with
    | not => cases operand <;> cases constant
    | negate =>
      cases operand with
      | literal d span' =>
        cases d with
        | number x =>
          cases constant
          rw [expr]
          exact (runChecked running).trans (runBind (literal (.number x) span'))
        | _ => cases constant
      | _ => cases constant
  | _ => cases constant

mutual

theorem runBuilding {e : Expr} (constant : e.Constant) {s : State σ} (running : ¬ ctx.Aborted s) :
    ∃ w h', runFrom s (expr ctx e) = (.ok w, s.withHeap h') ∧ s.store.heap.Spares h' ∧
      h'.Builds e w := by
  have leaf {d : Expr} {c : Scalar} (same : d.constant? = some c) :
      ∃ w h', runFrom s (expr ctx d) = (.ok w, s.withHeap h') ∧ s.store.heap.Spares h' ∧
        h'.Builds d w :=
    ⟨.scalar c, s.store.heap, runConstant same running, .refl _, .scalar same⟩
  match e with
  | .sequence kind elements span =>
    obtain ⟨ws, h', ran, spares, built⟩ :=
      runBuildingAll (.sequence kind elements span) 0 constant.2 running
    obtain ⟨o, sort, items, allocated⟩ := runSequence ctx kind ws (s.withHeap h')
    have whole : runFrom s (expr ctx (.sequence kind elements span)) =
        (.ok (.object (h'.alloc o).1), s.withHeap (h'.alloc o).2) := by
      rw [expr]
      exact (runChecked running).trans ((runBind ran).trans allocated)
    have there := Heap.getAllocNew h' o
    refine ⟨_, _, whole, spares.trans (.alloc h' o), .sequence span ?_ ?_ ?_⟩
    · simp [Heap.holds, Heap.alloc]
    · rw [Heap.kind, there, sort]
    · rw [Heap.items, there, items]
      exact built.later (.alloc h' o)
  | .literal c span => exact leaf rfl
  | .unary op operand span =>
    have signed : (Expr.unary op operand span).constant?.isSome = true :=
      constant.1.resolve_left Bool.false_ne_true
    exact leaf (Option.some_get signed).symm
  | .name n span => exact absurd constant (by simp [Expr.Constant, Expr.All, Expr.isSequence, Expr.constant?])
  | .call callee args span => exact absurd constant.1 (by simp [Expr.isSequence, Expr.constant?])
  | .subscript object index span => exact absurd constant.1 (by simp [Expr.isSequence, Expr.constant?])

theorem runBuildingAll {elements : List (Option Expr)} (literal : Expr) (index : Nat)
    (constant : Expr.AllSlots (fun d => d.isSequence = true ∨ d.constant?.isSome = true) False elements)
    {s : State σ} (running : ¬ ctx.Aborted s) :
    ∃ ws h', runFrom s (slots ctx literal index elements) = (.ok ws, s.withHeap h') ∧
      s.store.heap.Spares h' ∧ h'.BuildsAll elements ws := by
  match elements with
  | [] => exact ⟨[], s.store.heap, by rw [slots]; rfl, .refl _, .none⟩
  | none :: rest => exact constant.1.elim
  | some e :: rest =>
    obtain ⟨w, h', ran, spares, built⟩ := runBuilding constant.1 running
    have running' : ¬ ctx.Aborted (s.withHeap h') := running
    obtain ⟨ws, h'', ran', spares', built'⟩ :=
      runBuildingAll literal (index + 1) constant.2 running'
    refine ⟨w :: ws, h'', ?_, spares.trans spares', .more (built.later spares') built'⟩
    rw [slots]
    exact (runChecked running).trans ((runBind ran).trans (runBind ran'))

end

end Eval

namespace Run

/- Where no abort is pending, a tree of literals in full sequences has a value. Nothing but new
sequences comes of it, and the value is written as the tree is printed, whatever its numbers and
strings are. -/
theorem displayWritten (ctx : Context σ) (s : State σ) (e : Expr) (running : ¬ ctx.Aborted s)
    (display : e.Display) :
    ∃ v h, evaluate ctx e s = (.ok v, s.withHeap h) ∧ s.store.heap.Spares h ∧
      h.written v = e.printed := by
  obtain ⟨v, h, ran, spares, builds⟩ := Eval.runBuilding display.constant running
  have writes : h.WritesPlainly v e.printed := builds.writes display
  exact ⟨v, h, ran, spares, ((Heap.plainlyIff writes.acyclic _).mp writes).symm⟩

def unreadable : Expr :=
  let literal (s : Scalar) : Option Expr := some (.literal s .synthetic)
  .sequence .list
    [some (.sequence .tuple [literal (.number (.ofInt (-1))), literal (.number .nan)] .synthetic),
      literal (.string [CodeUnit.newline])] .synthetic

theorem unreadableWritten :
    let s : State Unit := ⟨⟨⟨#[.list 0 [.object 0]], 1, []⟩, [], false, ()⟩, []⟩
    ¬ (Context.plain 0).Aborted s ∧ unreadable.Display ∧
      ∃ v h, evaluate (.plain 0) unreadable s = (.ok v, s.withHeap h) ∧ s.store.heap.Spares h ∧
        h.written v = unreadable.printed := by
  intro s
  have running : ¬ (Context.plain 0).Aborted s := by simp [Context.Aborted, Context.plain]
  have display : unreadable.Display := by
    simp [unreadable, Expr.Display, Expr.All, Expr.AllSlots, Expr.isSequence, Expr.isLiteral]
  exact ⟨running, display, displayWritten (.plain 0) s unreadable running display⟩

end Run

end SeqScript
