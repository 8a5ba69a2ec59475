import SeqScript.Proofs.Run.Begins

/-! Runs with a record of what they come to, in the order in which it happens. A timed computation
has the outcome and the last state of the evaluation it stands for, and beside them its ticks: which
nodes were begun, which elements taken up, which variables read, which operations carried out, and
where the run was stopped. Each tick says whether an abort was pending at that moment. -/
namespace SeqScript
open Stepper (runFrom)

variable {σ : Type}

/-- The way to a node of a script: the number of its statement, a zero for the expression of the
statement, and below that the number of each part. -/
abbrev Place := List Nat

inductive Moment where
  | begins (p : Place)
  | takesUp (p : Place)
  | reads (p : Place)
  | acts (p : Place) (nodes : List Place)
  | stops (p : Place) (stop : Stop)

def Moment.Starts : Moment → Prop
  | .begins _ | .takesUp _ | .reads _ => True
  | _ => False

structure Tick where
  moment : Moment
  late : Bool

def Context.late (ctx : Context σ) (s : State σ) : Bool := ctx.hasSignal && s.store.aborted

namespace Expr

mutual

def places (p : Place) : Expr → List Place
  | literal _ _ => [p]
  | sequence _ elements _ => p :: slotPlaces p 0 elements
  | name _ _ => [p]
  | call _ args _ => p :: argPlaces p 0 args
  | subscript object index _ => p :: (places (p ++ [0]) object ++ places (p ++ [1]) index)
  | unary _ operand _ => p :: places (p ++ [0]) operand

def slotPlaces (p : Place) (i : Nat) : List (Option Expr) → List Place
  | [] => []
  | none :: rest => slotPlaces p (i + 1) rest
  | some e :: rest => places (p ++ [i]) e ++ slotPlaces p (i + 1) rest

def argPlaces (p : Place) (i : Nat) : List Expr → List Place
  | [] => []
  | e :: rest => places (p ++ [i]) e ++ argPlaces p (i + 1) rest

end

end Expr

def Statement.places (i : Nat) (s : Statement) : List Place := [i] :: s.expr.places [i, 0]

def Script.placesFrom (i : Nat) : List Statement → List Place
  | [] => []
  | s :: rest => s.places i ++ placesFrom (i + 1) rest

def Script.places (s : Script) : List Place := placesFrom 0 s.statements

def Timed (σ α : Type) : Type := State σ → Except Stop α × State σ × List Tick

namespace Timed

instance : Monad (Timed σ) where
  pure a := fun s => (.ok a, s, [])
  bind m f := fun s =>
    match m s with
    | (.ok a, t, before) => ((f a t).1, (f a t).2.1, before ++ (f a t).2.2)
    | (.error stop, t, before) => (.error stop, t, before)

theorem bindRan {α β : Type} {m : Timed σ α} {f : α → Timed σ β} {s t : State σ} {a : α}
    {before : List Tick} (ran : m s = (.ok a, t, before)) :
    (m >>= f) s = ((f a t).1, (f a t).2.1, before ++ (f a t).2.2) := by
  simp only [bind, ran]

theorem bindStopped {α β : Type} {m : Timed σ α} {f : α → Timed σ β} {s t : State σ} {stop : Stop}
    {before : List Tick} (ran : m s = (.error stop, t, before)) :
    (m >>= f) s = (.error stop, t, before) := by
  simp only [bind, ran]

variable (ctx : Context σ)

/-- Part of an evaluation, at a node. That it stops the run is recorded; what it does before is not. -/
def part {α : Type} (p : Place) (m : Eval σ α) : Timed σ α := fun s =>
  match runFrom s m with
  | (.ok a, t) => (.ok a, t, [])
  | (.error stop, t) => (.error stop, t, [⟨.stops p stop, ctx.late t⟩])

def note (moments : List Moment) : Timed σ Unit := fun s =>
  (.ok (), s, moments.map fun m => ⟨m, ctx.late s⟩)

def enter (p : Place) (location : Option Location) (moments : List Moment) : Timed σ Unit := do
  part ctx p (Eval.checkAborted ctx location)
  note ctx moments

def invoke (p : Place) (nodes : List Place) (f : Callable σ) (name : Text) (args : List Value)
    (location : Option Location) : Timed σ Value := do
  part ctx p (Eval.emit ctx .call (.call name args))
  note ctx [.acts p nodes]
  let v ← part ctx p (Eval.apply ctx f name args location)
  part ctx p (Eval.emit ctx .returned (.returned name v))
  return v

mutual

def expr (p : Place) (e : Expr) : Timed σ Value := do
  match e with
  | .literal s span =>
    enter ctx p span.location? [.begins p]
    return .scalar s
  | .sequence kind elements span =>
    enter ctx p span.location? [.begins p]
    let items ← slots p (.sequence kind elements span) 0 elements
    note ctx [.acts p (Expr.places p (.sequence kind elements span))]
    part ctx p (Eval.allocSequence ctx kind items)
  | .name n span =>
    enter ctx p span.location? [.begins p, .reads p]
    part ctx p (Eval.lookup n span.location?)
  | .call callee args span =>
    enter ctx p span.location? [.begins p]
    let f ← part ctx p (Eval.function ctx callee span.location?)
    let vs ← exprs p 0 args
    invoke ctx p (Expr.places p (.call callee args span)) f callee vs span.location?
  | .subscript object index span =>
    enter ctx p span.location? [.begins p]
    let o ← expr (p ++ [0]) object
    let i ← expr (p ++ [1]) index
    note ctx [.acts p (Expr.places p (.subscript object index span))]
    part ctx p (do Eval.ofFault (Eval.elementAt (← Eval.heap) o i span.location?))
  | .unary op operand span =>
    enter ctx p span.location? [.begins p]
    let v ← expr (p ++ [0]) operand
    note ctx [.acts p (Expr.places p (.unary op operand span))]
    part ctx p (Eval.applyUnary op v span.location?)

def slots (p : Place) (literal : Expr) (i : Nat) : List (Option Expr) → Timed σ (List Value)
  | [] => return []
  | none :: _ => do
    enter ctx p literal.span.location? [.takesUp (p ++ [i])]
    part ctx p (Eval.raise (.missingElement (literal.summary ctx.limits) i) literal.span.location?)
  | some e :: rest => do
    enter ctx p literal.span.location? [.takesUp (p ++ [i])]
    let v ← expr (p ++ [i]) e
    let vs ← slots p literal (i + 1) rest
    return v :: vs

def exprs (p : Place) (i : Nat) : List Expr → Timed σ (List Value)
  | [] => return []
  | e :: rest => do
    let v ← expr (p ++ [i]) e
    let vs ← exprs p (i + 1) rest
    return v :: vs

end

def statement (i : Nat) (s : Statement) : Timed σ Value := do
  enter ctx [i] s.span.location? [.begins [i]]
  match s with
  | .expression e _ => expr ctx [i, 0] e
  | .assignment target value _ =>
    let v ← expr ctx [i, 0] value
    note ctx [.acts [i] (s.places i)]
    part ctx [i] (Eval.bind target v)
    return v

def turn (i total : Nat) (s : Statement) : Timed σ Value := do
  part ctx [i] (Eval.checkAborted ctx s.span.location?)
  part ctx [i] (Eval.emit ctx .stepStart (.stepStart i total))
  let v ← statement ctx i s
  part ctx [i] (Eval.emit ctx .stepEnd (.stepEnd i total v))
  return v

def turns (i total : Nat) : List Statement → Timed σ Unit
  | [] => return ()
  | s :: rest => do
    let _ ← turn ctx i total s
    turns (i + 1) total rest

def script (s : Script) : Timed σ Unit := turns ctx 0 s.statements.length s.statements

end Timed

def Erases {α : Type} (m : Timed σ α) (n : Eval σ α) : Prop :=
  ∀ s, runFrom s n = ((m s).1, (m s).2.1)

namespace Erases

variable {ctx : Context σ} {α β : Type}

theorem pure (a : α) : Erases (Pure.pure a : Timed σ α) (Pure.pure a) := fun _ => rfl

theorem bind {m : Timed σ α} {n : Eval σ α} {f : α → Timed σ β} {g : α → Eval σ β}
    (first : Erases m n) (second : ∀ a, Erases (f a) (g a)) : Erases (m >>= f) (n >>= g) := by
  intro s
  have ran := first s
  rcases run : m s with ⟨stop | a, t, before⟩
  · rw [run] at ran
    rw [Timed.bindStopped run, runBindStopped ran]
  · rw [run] at ran
    rw [Timed.bindRan run, runBind ran, second a t]

theorem part (p : Place) (m : Eval σ α) : Erases (Timed.part ctx p m) m := by
  intro s
  unfold Timed.part
  rcases runFrom s m with ⟨stop | a, t⟩ <;> rfl

theorem noted {moments : List Moment} {f : Unit → Timed σ α} {n : Eval σ α}
    (rest : Erases (f ()) n) : Erases (Timed.note ctx moments >>= f) n := rest

theorem enter (p : Place) (location : Option Location) (moments : List Moment) :
    Erases (Timed.enter ctx p location moments) (Eval.checkAborted ctx location) := by
  have noting : Erases (Timed.note ctx moments) (Pure.pure ()) := fun _ => rfl
  have whole : Erases (Timed.enter ctx p location moments)
      (Eval.checkAborted ctx location >>= fun _ => Pure.pure ()) := bind (part p _) fun _ => noting
  rwa [bind_pure_unit] at whole

theorem invoke (p : Place) (nodes : List Place) (f : Callable σ) (name : Text) (args : List Value)
    (location : Option Location) :
    Erases (Timed.invoke ctx p nodes f name args location) (Eval.invoke ctx f name args location) :=
  bind (part p _) fun _ => noted (bind (part p _) fun v => bind (part p _) fun _ => pure v)

mutual

theorem expr (p : Place) (e : Expr) : Erases (Timed.expr ctx p e) (Eval.expr ctx e) := by
  match e with
  | .literal s span => exact bind (enter p _ _) fun _ => pure _
  | .sequence kind elements span =>
    exact bind (enter p _ _) fun _ => bind (slots p _ 0 elements) fun items => noted (part p _)
  | .name n span => exact bind (enter p _ _) fun _ => part p _
  | .call callee args span =>
    exact bind (enter p _ _) fun _ => bind (part p _) fun f => bind (exprs p 0 args) fun vs =>
      invoke p _ f callee vs _
  | .subscript object index span =>
    exact bind (enter p _ _) fun _ => bind (expr _ object) fun o => bind (expr _ index) fun i =>
      noted (part p _)
  | .unary op operand span =>
    exact bind (enter p _ _) fun _ => bind (expr _ operand) fun v => noted (part p _)

theorem slots (p : Place) (literal : Expr) (i : Nat) (elements : List (Option Expr)) :
    Erases (Timed.slots ctx p literal i elements) (Eval.slots ctx literal i elements) := by
  match elements with
  | [] => exact pure _
  | none :: _ => exact bind (enter p _ _) fun _ => part p _
  | some e :: rest =>
    exact bind (enter p _ _) fun _ => bind (expr _ e) fun v => bind (slots p literal (i + 1) rest)
      fun vs => pure _

theorem exprs (p : Place) (i : Nat) (es : List Expr) :
    Erases (Timed.exprs ctx p i es) (Eval.exprs ctx es) := by
  match es with
  | [] => exact pure _
  | e :: rest => exact bind (expr _ e) fun v => bind (exprs p (i + 1) rest) fun vs => pure _

end

theorem statement (i : Nat) (s : Statement) :
    Erases (Timed.statement ctx i s) (Eval.statement ctx s) := by
  refine bind (enter [i] _ _) fun _ => ?_
  cases s with
  | expression e span => exact expr _ e
  | assignment target value span =>
    exact bind (expr _ value) fun v => noted (bind (part [i] _) fun _ => pure v)

end Erases

end SeqScript
