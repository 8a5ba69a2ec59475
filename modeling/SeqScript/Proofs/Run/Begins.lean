import SeqScript.Proofs.Run.Effect
import SeqScript.Proofs.Tree.Nodes
import SeqScript.Run.Stepper

/-! Which nodes of a tree an evaluation comes to, and in which states. Nodes behind one that stops
are not begun. -/
namespace SeqScript
open Relation (ReflTransGen)
open Stepper (runFrom)

variable {σ : Type}

inductive Part where
  | expr (e : Expr)
  | slots (literal : Expr) (index : Nat) (elements : List (Option Expr))
  | exprs (es : List Expr)

namespace Part

def All (node : Expr → Prop) (hole : Prop) : Part → Prop
  | expr e => e.All node hole
  | slots _ _ elements => Expr.AllSlots node hole elements
  | exprs es => Expr.AllArgs node hole es

def after (ctx : Context σ) (s : State σ) : Part → State σ
  | expr e => (runFrom s (Eval.expr ctx e)).2
  | slots literal index elements => (runFrom s (Eval.slots ctx literal index elements)).2
  | exprs es => (runFrom s (Eval.exprs ctx es)).2

end Part

inductive Begins (ctx : Context σ) : Part → State σ → Expr → State σ → Prop where
  | here (e : Expr) (s : State σ) : Begins ctx (.expr e) s e s
  | element {kind elements span s d t} (runs : ¬ ctx.Aborted s)
      (inside : Begins ctx (.slots (.sequence kind elements span) 0 elements) s d t) :
      Begins ctx (.expr (.sequence kind elements span)) s d t
  | argument {callee args span f s d t} (runs : ¬ ctx.Aborted s)
      (there : ctx.functions.get? callee = some f) (inside : Begins ctx (.exprs args) s d t) :
      Begins ctx (.expr (.call callee args span)) s d t
  | object {object index span s d t} (runs : ¬ ctx.Aborted s)
      (inside : Begins ctx (.expr object) s d t) :
      Begins ctx (.expr (.subscript object index span)) s d t
  | index {object index span s v u d t} (runs : ¬ ctx.Aborted s)
      (before : runFrom s (Eval.expr ctx object) = (.ok v, u))
      (inside : Begins ctx (.expr index) u d t) :
      Begins ctx (.expr (.subscript object index span)) s d t
  | operand {op operand span s d t} (runs : ¬ ctx.Aborted s)
      (inside : Begins ctx (.expr operand) s d t) : Begins ctx (.expr (.unary op operand span)) s d t
  | firstSlot {literal i e rest s d t} (runs : ¬ ctx.Aborted s)
      (inside : Begins ctx (.expr e) s d t) : Begins ctx (.slots literal i (some e :: rest)) s d t
  | laterSlot {literal i e rest s v u d t} (runs : ¬ ctx.Aborted s)
      (before : runFrom s (Eval.expr ctx e) = (.ok v, u))
      (inside : Begins ctx (.slots literal (i + 1) rest) u d t) :
      Begins ctx (.slots literal i (some e :: rest)) s d t
  | firstArg {e rest s d t} (inside : Begins ctx (.expr e) s d t) :
      Begins ctx (.exprs (e :: rest)) s d t
  | laterArg {e rest s v u d t} (before : runFrom s (Eval.expr ctx e) = (.ok v, u))
      (inside : Begins ctx (.exprs rest) u d t) : Begins ctx (.exprs (e :: rest)) s d t

variable {ctx : Context σ}

theorem Leading.run {α : Type} {m : Eval σ α} (leading : Leading ctx m) (s : State σ) :
    Leads ctx s (runFrom s m).2 := by
  unfold runFrom
  rcases (leading s).outcome with ⟨a, t, run, leads⟩ | ⟨stop, t, run, leads⟩ <;> rw [run] <;>
    exact leads

theorem Leading.ran {α : Type} {m : Eval σ α} (leading : Leading ctx m) {s t : State σ}
    {outcome : Except Stop α} (run : runFrom s m = (outcome, t)) : Leads ctx s t := by
  have leads := leading.run s
  rwa [run] at leads

namespace Begins

theorem leads {p : Part} {s t : State σ} {d : Expr} (begins : Begins ctx p s d t) :
    Leads ctx s t := by
  induction begins with
  | here => exact .refl
  | index _ before _ ih => exact ((Leading.expr _).ran before).trans ih
  | laterSlot _ before _ ih => exact ((Leading.expr _).ran before).trans ih
  | laterArg before _ ih => exact ((Leading.expr _).ran before).trans ih
  | _ => assumption

theorem all {node : Expr → Prop} {hole : Prop} {p : Part} {s t : State σ} {d : Expr}
    (begins : Begins ctx p s d t) (all : p.All node hole) : d.All node hole := by
  induction begins with
  | here => exact all
  | element _ _ ih => exact ih all.2
  | argument _ _ _ ih => exact ih all.2
  | object _ _ ih => exact ih all.2.1
  | index _ _ _ ih => exact ih all.2.2
  | operand _ _ ih => exact ih all.2
  | firstSlot _ _ ih => exact ih all.1
  | laterSlot _ _ _ ih => exact ih all.2
  | firstArg _ ih => exact ih all.1
  | laterArg _ _ ih => exact ih all.2

end Begins

theorem runBind {α β : Type} {m : Eval σ α} {f : α → Eval σ β} {s u : State σ} {a : α}
    (first : runFrom s m = (.ok a, u)) : runFrom s (m >>= f) = runFrom u (f a) := by
  have run : m.run.run s = (.ok a, u) := first
  simp only [runFrom, ExceptT.run_bind, StateT.run_bind, run]
  rfl

theorem runBindStopped {α β : Type} {m : Eval σ α} {f : α → Eval σ β} {s u : State σ} {stop : Stop}
    (first : runFrom s m = (.error stop, u)) : runFrom s (m >>= f) = (.error stop, u) := by
  have run : m.run.run s = (.error stop, u) := first
  simp only [runFrom, ExceptT.run_bind, StateT.run_bind, run]
  rfl

theorem checkPasses {s : State σ} (runs : ¬ ctx.Aborted s) (location : Option Location) :
    runFrom s (Eval.checkAborted ctx location) = (.ok (), s) := by
  have checked : Ensures s (Eval.checkAborted ctx location) (fun _ t => t = s) fun _ _ => False :=
    Eval.ensuresChecked (fun _ => rfl) fun aborted => runs aborted
  rcases checked.outcome with ⟨_, _, run, rfl⟩ | ⟨_, _, _, never⟩
  · exact run
  · exact never.elim

theorem checkStops {s : State σ} (aborted : ctx.Aborted s) (location : Option Location) :
    runFrom s (Eval.checkAborted ctx location) = (.error (.fault ⟨.aborted, location⟩), s) := by
  have checked : Ensures s (Eval.checkAborted ctx location) (fun _ _ => False)
      fun stop t => stop = .fault ⟨.aborted, location⟩ ∧ t = s :=
    Eval.ensuresChecked (fun runs => runs aborted) fun _ => ⟨rfl, rfl⟩
  rcases checked.outcome with ⟨_, _, _, never⟩ | ⟨_, _, run, rfl, rfl⟩
  · exact never.elim
  · exact run

theorem runChecked {α : Type} {f : Unit → Eval σ α} {s : State σ} {location : Option Location}
    (runs : ¬ ctx.Aborted s) :
    runFrom s (Eval.checkAborted ctx location >>= f) = runFrom s (f ()) :=
  runBind (checkPasses runs location)

theorem runFunction {α : Type} {name : Text} {location : Option Location} {g : Callable σ}
    {f : Callable σ → Eval σ α} {s : State σ} (there : ctx.functions.get? name = some g) :
    runFrom s (Eval.function ctx name location >>= f) = runFrom s (f g) := by
  unfold Eval.function
  rw [there]
  rfl

theorem leadsOn {α β : Type} {m : Eval σ α} {f : α → Eval σ β} (rest : ∀ a, Leading ctx (f a))
    (s : State σ) : Leads ctx (runFrom s m).2 (runFrom s (m >>= f)).2 := by
  rcases (ensuresTrivial m (s := s)).outcome with ⟨a, t, run, _⟩ | ⟨stop, t, run, _⟩
  · have first : runFrom s m = (.ok a, t) := run
    rw [runBind first, first]
    exact (rest a).run t
  · have first : runFrom s m = (.error stop, t) := run
    rw [runBindStopped first, first]

namespace Begins

theorem goesOn {p : Part} {s t : State σ} {d : Expr} (begins : Begins ctx p s d t) :
    Leads ctx (runFrom t (Eval.expr ctx d)).2 (p.after ctx s) := by
  induction begins with
  | here => exact .refl
  | @element kind elements span s d t runs inside ih =>
    have whole : runFrom s (Eval.expr ctx (.sequence kind elements span)) =
        runFrom s (Eval.slots ctx (.sequence kind elements span) 0 elements >>= fun items =>
          Eval.allocSequence ctx kind items) := runChecked runs
    rw [Part.after, whole]
    exact ih.trans (leadsOn (fun items => .allocSequence kind items) s)
  | @argument callee args span f s d t runs there inside ih =>
    have whole : runFrom s (Eval.expr ctx (.call callee args span)) =
        runFrom s (Eval.exprs ctx args >>= fun vs => Eval.invoke ctx f callee vs span.location?) :=
      (runChecked runs).trans (runFunction there)
    rw [Part.after, whole]
    exact ih.trans (leadsOn (fun vs => .invoke there vs _) s)
  | @object object index span s d t runs inside ih =>
    have whole : runFrom s (Eval.expr ctx (.subscript object index span)) =
        runFrom s (Eval.expr ctx object >>= fun o => Eval.expr ctx index >>= fun i =>
          Eval.heap >>= fun h => Eval.ofFault (Eval.elementAt h o i span.location?)) := runChecked runs
    rw [Part.after, whole]
    exact ih.trans (leadsOn (fun o => .bind (.expr index) fun i => .heap fun h => .ofFault _) s)
  | @index object index span s v u d t runs before inside ih =>
    have whole : runFrom s (Eval.expr ctx (.subscript object index span)) =
        runFrom u (Eval.expr ctx index >>= fun i =>
          Eval.heap >>= fun h => Eval.ofFault (Eval.elementAt h v i span.location?)) :=
      (runChecked runs).trans (runBind before)
    rw [Part.after, whole]
    exact ih.trans (leadsOn (fun i => .heap fun h => .ofFault _) u)
  | @operand op operand span s d t runs inside ih =>
    have whole : runFrom s (Eval.expr ctx (.unary op operand span)) =
        runFrom s (Eval.expr ctx operand >>= fun v => Eval.applyUnary op v span.location?) :=
      runChecked runs
    rw [Part.after, whole]
    exact ih.trans (leadsOn (fun v => .applyUnary op v _) s)
  | @firstSlot literal i e rest s d t runs inside ih =>
    have whole : runFrom s (Eval.slots ctx literal i (some e :: rest)) =
        runFrom s (Eval.expr ctx e >>= fun v => Eval.slots ctx literal (i + 1) rest >>= fun vs =>
          pure (v :: vs)) := runChecked runs
    rw [Part.after, whole]
    exact ih.trans (leadsOn (fun v => .bind (.slots literal (i + 1) rest) fun vs => .pure _) s)
  | @laterSlot literal i e rest s v u d t runs before inside ih =>
    have whole : runFrom s (Eval.slots ctx literal i (some e :: rest)) =
        runFrom u (Eval.slots ctx literal (i + 1) rest >>= fun vs => pure (v :: vs)) :=
      (runChecked runs).trans (runBind before)
    rw [Part.after, whole]
    exact ih.trans (leadsOn (fun vs => .pure _) u)
  | @firstArg e rest s d t inside ih =>
    exact ih.trans (leadsOn (fun v => .bind (.exprs rest) fun vs => .pure _) s)
  | @laterArg e rest s v u d t before inside ih =>
    have whole : runFrom s (Eval.exprs ctx (e :: rest)) =
        runFrom u (Eval.exprs ctx rest >>= fun vs => pure (v :: vs)) := runBind before
    rw [Part.after, whole]
    exact ih.trans (leadsOn (fun vs => .pure _) u)

end Begins

end SeqScript
