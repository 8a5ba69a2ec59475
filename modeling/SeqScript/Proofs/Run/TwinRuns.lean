import SeqScript.Proofs.Run.Twins

/-! Whole runs side by side: expressions, statements, steps and scripts keep two runs twins. -/
namespace SeqScript
open List (Forall₂)
open Stepper (runFrom)

variable {ctx : Context Unit} {e : Domain} {paired : Ref → Ref → Prop}

namespace Tandem
open Eval

theorem allocSequence (kind : SequenceKind) {vs ws : List Value} (values : Values.Mirror paired vs ws) :
    Tandem ctx.domain e paired (allocSequence ctx kind vs) (Eval.allocSequence (ctx.moved e) kind ws)
      Value.Mirrors := by
  cases kind with
  | list => exact alloc (.list ⟨rfl, rfl⟩ values)
  | tuple => exact alloc (.tuple values)

theorem lookup (name : Text) (location : Option Location) :
    Tandem ctx.domain e paired (Eval.lookup name location) (Eval.lookup name location)
      Value.Mirrors := by
  refine store fun s t stores => ?_
  have found := stores.bindings.get? name
  generalize s.bindings.get? name = x, t.bindings.get? name = y at found
  cases found with
  | some values => exact pure values
  | none => exact throw _

theorem applyUnary (op : UnaryOp) {v w : Value} (values : v.Mirrors paired w)
    (location : Option Location) :
    Tandem ctx.domain e paired (Eval.applyUnary op v location) (Eval.applyUnary op w location)
      Value.Mirrors := by
  cases op with
  | not =>
    refine heap fun h k heaps => pure ?_
    rw [heaps.mirrors.truthy values]
    exact .scalar _
  | negate =>
    have refused : Tandem ctx.domain e paired
        (Eval.heap >>= fun h => raise (.operandType (h.typeName v)) location : Eval Unit Value)
        (Eval.heap >>= fun h => raise (.operandType (h.typeName w)) location : Eval Unit Value)
        Value.Mirrors := heap fun h k heaps => by
      rw [heaps.mirrors.typeName values]
      exact throw _
    cases values with
    | object pair => exact refused
    | scalar s =>
      cases s with
      | number x => exact pure (.scalar _)
      | none | bool | string => exact refused

theorem changing {f g : Heap → Except Fault Heap}
    (agree : ∀ h k : Heap, h.Twins ctx.domain e paired k →
      Agree (Heap.Twins ctx.domain e paired) (f h) (g k)) :
    Tandem ctx.domain e paired
      (do Eval.setHeap (← Eval.ofFault (f (← Eval.heap))); return Value.none : Eval Unit Value)
      (do Eval.setHeap (← Eval.ofFault (g (← Eval.heap))); return Value.none : Eval Unit Value)
      Value.Mirrors :=
  heap fun h k heaps => fault (agree h k heaps) fun _ _ changed =>
    (setHeap changed).bind fun _ _ _ _ _ => pure (.scalar .none)

theorem applyBuiltin (alone : ctx.Alone) (b : Builtin) {args others : List Value}
    (alike : Values.Mirror paired args others) (location : Option Location) :
    Tandem ctx.domain e paired (applyBuiltin ctx b args location)
      (Eval.applyBuiltin (ctx.moved e) b others location) Value.Mirrors := by
  cases b with
  | len => exact heap fun h k heaps => ofFault (lengthOfAgree heaps location alike)
  | append => exact changing fun h k heaps => appendToAgree heaps location alike
  | extend => exact changing fun h k heaps => extendWithAgree heaps location alike
  | list =>
    exact heap fun h k heaps => fault (convertedAgree heaps location _ alike) fun vs ws items =>
      alloc (.list ⟨rfl, rfl⟩ items)
  | tuple =>
    refine heap fun h k heaps => fault (convertedAgree heaps location _ alike) fun vs ws items =>
      heap fun h k heaps => ?_
    have found := heaps.mirrors.tuple? (firstMirrors alike)
    generalize h.tuple? (first args) = x, k.tuple? (first others) = y at found
    cases found with
    | some pair => exact pure (.object pair)
    | none => exact alloc (.tuple items)
  | print => exact (logAll alone alike).bind fun _ _ _ _ _ => pure (.scalar .none)

theorem invoke (alone : ctx.Alone) {f : Callable Unit} {name : Text}
    (there : ctx.functions.get? name = some f) {args others : List Value}
    (alike : Values.Mirror paired args others) (location : Option Location) :
    Tandem ctx.domain e paired (invoke ctx f name args location)
      (Eval.invoke (ctx.moved e) f name others location) Value.Mirrors := by
  refine (emit alone EventKind.noConfusion _ _).bind fun further _ _ more _ => ?_
  have alike := Values.Mirror.wider more alike
  cases f with
  | host f => exact absurd there (alone.noHost name f)
  | builtin b =>
    refine (applyBuiltin alone b alike location).bind fun last v w _ values => ?_
    exact (emit alone EventKind.noConfusion _ _).bind fun _ _ _ more' _ => pure (values.wider more')

theorem function {name : Text} {location : Option Location} {α β : Type}
    {p : (Ref → Ref → Prop) → α → β → Prop} {f : Callable Unit → Eval Unit α}
    {g : Callable Unit → Eval Unit β}
    (rest : ∀ c, ctx.functions.get? name = some c → Tandem ctx.domain e paired (f c) (g c) p) :
    Tandem ctx.domain e paired (Eval.function ctx name location >>= f)
      (Eval.function (ctx.moved e) name location >>= g) p := by
  have same : (ctx.moved e).functions = ctx.functions := rfl
  rw [Eval.function, Eval.function, same]
  cases there : ctx.functions.get? name with
  | some c => exact rest c there
  | none => exact throw _

mutual

theorem expr (alone : ctx.Alone) (x : Expr) (paired : Ref → Ref → Prop) :
    Tandem ctx.domain e paired (Eval.expr ctx x) (Eval.expr (ctx.moved e) x) Value.Mirrors := by
  match x with
  | .literal v span => exact (checkAborted _).bind fun _ _ _ _ _ => pure (.scalar v)
  | .sequence kind elements span =>
    exact (checkAborted _).bind fun further _ _ _ _ => (slots alone _ 0 elements further).bind
      fun _ _ _ _ items => allocSequence kind items
  | .name n span => exact (checkAborted _).bind fun _ _ _ _ _ => lookup n _
  | .call callee args span =>
    exact (checkAborted _).bind fun further _ _ _ _ => function fun c there =>
      (exprs alone args further).bind fun _ _ _ _ values => invoke alone there values _
  | .subscript object index span =>
    exact (checkAborted _).bind fun first _ _ _ _ => (expr alone object first).bind
      fun second _ _ _ objects => (expr alone index second).bind fun third _ _ more indices =>
        heap fun h k heaps => ofFault (elementAtAgree heaps _ (objects.wider more) indices)
  | .unary op operand span =>
    exact (checkAborted _).bind fun further _ _ _ _ => (expr alone operand further).bind
      fun _ _ _ _ values => applyUnary op values _

theorem slots (alone : ctx.Alone) (literal : Expr) (index : Nat) (elements : List (Option Expr))
    (paired : Ref → Ref → Prop) :
    Tandem ctx.domain e paired (Eval.slots ctx literal index elements)
      (Eval.slots (ctx.moved e) literal index elements) Values.Mirror := by
  match elements with
  | [] => exact pure .nil
  | none :: _ => exact (checkAborted _).bind fun _ _ _ _ _ => throw _
  | some x :: rest =>
    exact (checkAborted _).bind fun first _ _ _ _ => (expr alone x first).bind fun second _ _ _ value =>
      (slots alone literal (index + 1) rest second).bind fun _ _ _ more values =>
        pure (.cons (value.wider more) values)

theorem exprs (alone : ctx.Alone) (es : List Expr) (paired : Ref → Ref → Prop) :
    Tandem ctx.domain e paired (Eval.exprs ctx es) (Eval.exprs (ctx.moved e) es) Values.Mirror := by
  match es with
  | [] => exact pure .nil
  | x :: rest =>
    exact (expr alone x paired).bind fun further _ _ _ value => (exprs alone rest further).bind
      fun _ _ _ more values => pure (.cons (value.wider more) values)

end

theorem bindName (target : Text) {v w : Value} (values : v.Mirrors paired w) :
    Tandem ctx.domain e paired (Eval.bind target v) (Eval.bind target w) fun _ _ _ => True :=
  store fun _ _ stores => setStore { stores with bindings := stores.bindings.set target values }

theorem statement (alone : ctx.Alone) (x : Statement) (paired : Ref → Ref → Prop) :
    Tandem ctx.domain e paired (Eval.statement ctx x) (Eval.statement (ctx.moved e) x)
      Value.Mirrors := by
  refine (checkAborted _).bind fun further _ _ _ _ => ?_
  cases x with
  | expression body span => exact expr alone body further
  | assignment target value span =>
    exact (expr alone value further).bind fun _ _ _ _ values =>
      (bindName target values).bind fun _ _ _ more _ => pure (values.wider more)

end Tandem

namespace Context.Alone

theorem moved (alone : ctx.Alone) : (ctx.moved e).Alone := ⟨alone.noHost, alone.silent, alone.logged⟩

theorem emits (alone : ctx.Alone) {kind : EventKind} (inner : kind ≠ .logged) (event : Event)
    (s : State Unit) : runFrom s (Eval.emit ctx kind event) = (.ok (), s) := by
  rw [Eval.emit, alone.silent kind inner]
  rfl

theorem tells (alone : ctx.Alone) (index : Nat) (stop : Stop) (s : State Unit) :
    runFrom s (Stepper.tellFailed ctx index stop) = (.ok (), s) := by
  have nobody : ctx.listener .failed = none := alone.silent .failed EventKind.noConfusion
  rw [Stepper.tellFailed, nobody]
  exact alone.emits EventKind.noConfusion _ s

theorem fails (alone : ctx.Alone) (st : Stepper) (stop : Stop) (s : State Unit) :
    Stepper.fail ctx st stop s =
      if stop = .stalled then (.error stop, st, s)
      else (.error stop, st.finished, Stepper.freeze ctx.domain s) := by
  rw [Stepper.fail, alone.tells]

theorem succeeds (alone : ctx.Alone) (st : Stepper) (rest : List Statement) (v : Value)
    (s : State Unit) :
    Stepper.succeed ctx st rest v s = (.ok ⟨v, rest.isEmpty, st.index, st.total⟩,
      { st with remaining := rest, index := st.index + 1, lastValue := v, done := rest.isEmpty },
      if rest.isEmpty then Stepper.freeze ctx.domain s else s) := by
  rw [Stepper.succeed]
  dsimp only
  rw [alone.emits EventKind.noConfusion]

end Context.Alone

structure Stepper.Twins (paired : Ref → Ref → Prop) (st st' : Stepper) : Prop where
  remaining : st.remaining = st'.remaining
  index : st.index = st'.index
  total : st.total = st'.total
  done : st.done = st'.done
  lastValue : st.lastValue.Mirrors paired st'.lastValue

inductive TwinSteps (d e : Domain) (paired : Ref → Ref → Prop) {α β : Type} :
    Except Stop α × Stepper × State Unit → Except Stop β × Stepper × State Unit → Prop where
  | goesOn {a b st st' s t} {further : Ref → Ref → Prop} (more : ∀ r r', paired r r' → further r r')
      (steppers : Stepper.Twins further st st') (twins : State.Twins d e further s t) :
      TwinSteps d e paired (.ok a, st, s) (.ok b, st', t)
  | stopped {stop st st' s t} {further : Ref → Ref → Prop}
      (more : ∀ r r', paired r r' → further r r') (twins : State.Twins d e further s t) :
      TwinSteps d e paired (.error stop, st, s) (.error stop, st', t)

theorem TwinSteps.wider {d : Domain} {further : Ref → Ref → Prop}
    (more : ∀ r r', paired r r' → further r r') {α β : Type}
    {x : Except Stop α × Stepper × State Unit} {y : Except Stop β × Stepper × State Unit}
    (ends : TwinSteps d e further x y) : TwinSteps d e paired x y := by
  cases ends with
  | goesOn more' steppers twins => exact .goesOn (fun r r' pair => more' r r' (more r r' pair)) steppers twins
  | stopped more' twins => exact .stopped (fun r r' pair => more' r r' (more r r' pair)) twins

theorem State.Twins.freeze {d : Domain} {s t : State Unit} (twins : State.Twins d e paired s t) :
    State.Twins d e paired (Stepper.freeze d s) (Stepper.freeze e t) where
  told := twins.told
  stores :=
    { bindings := twins.stores.bindings
      aborted := twins.stores.aborted
      heaps := ⟨twins.stores.heaps.mirrors.sameObjects rfl rfl, by
        simp [Stepper.freeze, Heap.freeze, Heap.isFrozen]⟩ }

theorem stepTwins (alone : ctx.Alone) {st st' : Stepper} (steppers : Stepper.Twins paired st st')
    {s t : State Unit} (twins : State.Twins ctx.domain e paired s t) :
    TwinSteps ctx.domain e paired (Stepper.step ctx st s) (Stepper.step (ctx.moved e) st' t) := by
  have same (r r' : Ref) (pair : paired r r') := pair
  obtain ⟨remaining, index, total, done, value⟩ := steppers
  unfold Stepper.step
  rw [← done, ← remaining, ← index, ← total]
  split
  · rename_i statement rest _ _
    have signal : (ctx.moved e).hasSignal = ctx.hasSignal := rfl
    rw [signal, ← twins.stores.aborted, alone.emits EventKind.noConfusion,
      alone.moved.emits EventKind.noConfusion]
    split
    · exact .stopped same twins.freeze
    · dsimp only
      have ends := Tandem.statement alone statement paired s t twins
      generalize runFrom s (Eval.statement ctx statement) = x,
        runFrom t (Eval.statement (ctx.moved e) statement) = y at ends
      cases ends with
      | stopped more twins =>
        dsimp only
        rw [alone.fails, alone.moved.fails]
        split
        · exact .stopped more twins
        · exact .stopped more twins.freeze
      | valued more twins values =>
        dsimp only
        rw [alone.succeeds, alone.moved.succeeds]
        refine .goesOn more ⟨rfl, congrArg (· + 1) index, total, rfl, values⟩ ?_
        split
        · exact twins.freeze
        · exact twins
  · exact .goesOn same ⟨remaining, index, total, rfl, value⟩ twins.freeze

theorem stepAllTwins (alone : ctx.Alone) (n : Nat) {st st' : Stepper}
    (steppers : Stepper.Twins paired st st') {s t : State Unit}
    (twins : State.Twins ctx.domain e paired s t) :
    TwinSteps ctx.domain e paired (Stepper.stepAll ctx n st s)
      (Stepper.stepAll (ctx.moved e) n st' t) := by
  induction n generalizing paired st st' s t with
  | zero => exact .goesOn (fun _ _ pair => pair) steppers twins
  | succ n ih =>
    have ends := stepTwins alone steppers twins
    unfold Stepper.stepAll
    rw [← steppers.done]
    split
    · exact .goesOn (fun _ _ pair => pair) steppers twins
    · generalize Stepper.step ctx st s = x, Stepper.step (ctx.moved e) st' t = y at ends
      cases ends with
      | stopped more twins => exact .stopped more twins
      | goesOn more steppers twins => exact (ih steppers twins).wider more

end SeqScript
