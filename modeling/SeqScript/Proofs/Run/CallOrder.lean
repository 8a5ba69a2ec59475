import SeqScript.Proofs.Run.Recorded
import SeqScript.Proofs.Run.Timeline

/-! The order of calls. The calls of a tree are listed from left to right, each behind the calls among
its arguments. An evaluation goes through that list from its beginning, tells of each call and of its
return before it turns to the next one, and applies no function that it has not told of. -/
namespace SeqScript
open Stepper (runFrom)

variable {σ : Type} {α β : Type}

structure Site where
  place : Place
  callee : Text
  deriving DecidableEq, Repr

namespace Expr

def isCall : Expr → Bool
  | call _ _ _ => true
  | _ => false

def parts : Expr → List (Option Expr)
  | sequence _ elements _ => elements
  | call _ args _ => args.map some
  | subscript object index _ => [some object, some index]
  | unary _ operand _ => [some operand]
  | _ => []

def part? (e : Expr) (i : Nat) : Option Expr := e.parts[i]?.join

def callAt (e : Expr) : Place → Bool
  | [] => e.isCall
  | i :: path =>
    match e.part? i with
    | some d => d.callAt path
    | none => false

mutual

def calls (p : Place) : Expr → List Site
  | literal _ _ => []
  | sequence _ elements _ => slotCalls p 0 elements
  | name _ _ => []
  | call callee args _ => argCalls p 0 args ++ [⟨p, callee⟩]
  | subscript object index _ => calls (p ++ [0]) object ++ calls (p ++ [1]) index
  | unary _ operand _ => calls (p ++ [0]) operand

def slotCalls (p : Place) (i : Nat) : List (Option Expr) → List Site
  | [] => []
  | none :: rest => slotCalls p (i + 1) rest
  | some e :: rest => calls (p ++ [i]) e ++ slotCalls p (i + 1) rest

def argCalls (p : Place) (i : Nat) : List Expr → List Site
  | [] => []
  | e :: rest => calls (p ++ [i]) e ++ argCalls p (i + 1) rest

end

theorem callAtCons {e : Expr} {i : Nat} {path : Place} :
    e.callAt (i :: path) = true ↔ ∃ d, e.part? i = some d ∧ d.callAt path = true := by
  rw [callAt]
  cases e.part? i with
  | none => simp
  | some d => simp

theorem argCallsSlots (p : Place) (i : Nat) (es : List Expr) :
    argCalls p i es = slotCalls p i (es.map some) := by
  induction es generalizing i with
  | nil => rfl
  | cons e rest ih => rw [argCalls, ih, List.map_cons, slotCalls]

structure Listed (p : Place) (e : Expr) : Prop where
  once : ((e.calls p).map Site.place).Nodup
  all : ∀ q, q ∈ (e.calls p).map Site.place ↔ ∃ path, q = p ++ path ∧ e.callAt path = true

structure ListedAll (p : Place) (i : Nat) (elements : List (Option Expr)) : Prop where
  once : ((slotCalls p i elements).map Site.place).Nodup
  all : ∀ q, q ∈ (slotCalls p i elements).map Site.place ↔
    ∃ j d path, elements[j]? = some (some d) ∧ q = p ++ (i + j) :: path ∧ d.callAt path = true

namespace ListedAll

variable {p : Place} {i : Nat} {rest : List (Option Expr)}

theorem nil : ListedAll p i [] where
  once := List.nodup_nil
  all q := by simp [slotCalls]

theorem hole (others : ListedAll p (i + 1) rest) : ListedAll p i (none :: rest) where
  once := others.once
  all q := by
    refine (others.all q).trans ⟨fun ⟨j, d, path, there, same, leads⟩ =>
      ⟨j + 1, d, path, there, by rw [same, Nat.add_right_comm, Nat.add_assoc], leads⟩, ?_⟩
    rintro ⟨_ | j, d, path, there, same, leads⟩
    · cases there
    · exact ⟨j, d, path, there, by rw [same, Nat.add_right_comm, Nat.add_assoc], leads⟩

theorem cons {e : Expr} (first : e.Listed (p ++ [i])) (others : ListedAll p (i + 1) rest) :
    ListedAll p i (some e :: rest) := by
  have behind := hole others
  have split : (slotCalls p i (some e :: rest)).map Site.place =
      (e.calls (p ++ [i])).map Site.place ++ (slotCalls p i (none :: rest)).map Site.place := by
    rw [slotCalls, slotCalls, List.map_append]
  refine ⟨?_, fun q => ?_⟩
  · rw [split]
    refine List.nodup_append.mpr ⟨first.once, behind.once, fun q here q' later equal => ?_⟩
    obtain ⟨path, rfl, _⟩ := (first.all q).mp here
    obtain ⟨j, d, path', _, same, _⟩ := (others.all q').mp later
    rw [← equal, List.append_assoc, List.append_cancel_left_eq] at same
    have number : i = i + 1 + j := (List.cons.inj same).1
    omega
  · rw [split, List.mem_append, first.all, behind.all]
    constructor
    · rintro (⟨path, rfl, leads⟩ | ⟨_ | j, d, path, there, same, leads⟩)
      · exact ⟨0, e, path, rfl, by rw [List.append_assoc]; rfl, leads⟩
      · cases there
      · exact ⟨j + 1, d, path, there, same, leads⟩
    · rintro ⟨_ | j, d, path, there, same, leads⟩
      · cases there
        exact .inl ⟨path, by rw [same, List.append_assoc]; rfl, leads⟩
      · exact .inr ⟨j + 1, d, path, there, same, leads⟩

end ListedAll

theorem callsParts (p : Place) (e : Expr) :
    (e.calls p).map Site.place =
      (slotCalls p 0 e.parts).map Site.place ++ if e.isCall then [p] else [] := by
  cases e with
  | call callee args span => simp [calls, parts, isCall, argCallsSlots]
  | _ => simp [calls, parts, isCall, slotCalls]

theorem listedNode {p : Place} {e : Expr} (parts : ListedAll p 0 e.parts) : e.Listed p := by
  have inside (q : Place) : q ∈ (slotCalls p 0 e.parts).map Site.place ↔
      ∃ i path, q = p ++ i :: path ∧ e.callAt (i :: path) = true := by
    rw [parts.all]
    simp only [callAtCons, part?, Option.join_eq_some_iff, Nat.zero_add]
    constructor
    · rintro ⟨j, d, path, there, same, leads⟩
      exact ⟨j, path, same, d, there, leads⟩
    · rintro ⟨j, path, same, d, there, leads⟩
      exact ⟨j, d, path, there, same, leads⟩
  refine ⟨?_, fun q => ?_⟩
  · rw [callsParts]
    refine List.nodup_append.mpr ⟨parts.once, by split <;> simp, fun q below q' own equal => ?_⟩
    obtain ⟨i, path, same, _⟩ := (inside q).mp below
    split at own
    · rw [equal, List.mem_singleton.mp own] at same
      simp at same
    · cases own
  · rw [callsParts, List.mem_append, inside]
    constructor
    · rintro (⟨i, path, same, leads⟩ | own)
      · exact ⟨i :: path, same, leads⟩
      · split at own
        · rename_i leads
          exact ⟨[], by rw [List.mem_singleton.mp own, List.append_nil], leads⟩
        · cases own
    · rintro ⟨_ | ⟨i, path⟩, rfl, leads⟩
      · have root : e.isCall = true := leads
        exact .inr (by simp [root])
      · exact .inl ⟨i, path, rfl, leads⟩

mutual

theorem listed (p : Place) (e : Expr) : e.Listed p := by
  match e with
  | .literal value span => exact listedNode .nil
  | .sequence kind elements span => exact listedNode (listedSlots p 0 elements)
  | .name n span => exact listedNode .nil
  | .call callee args span => exact listedNode (listedArgs p 0 args)
  | .subscript object index span =>
    exact listedNode (.cons (listed _ object) (.cons (listed _ index) .nil))
  | .unary op operand span => exact listedNode (.cons (listed _ operand) .nil)

theorem listedSlots (p : Place) (i : Nat) (elements : List (Option Expr)) :
    ListedAll p i elements := by
  match elements with
  | [] => exact .nil
  | none :: rest => exact .hole (listedSlots p (i + 1) rest)
  | some e :: rest => exact .cons (listed _ e) (listedSlots p (i + 1) rest)

theorem listedArgs (p : Place) (i : Nat) (es : List Expr) : ListedAll p i (es.map some) := by
  match es with
  | [] => exact .nil
  | e :: rest => exact .cons (listed _ e) (listedArgs p (i + 1) rest)

end

end Expr

def Statement.calls (i : Nat) (s : Statement) : List Site := s.expr.calls [i, 0]

def Statement.callAt (i : Nat) (s : Statement) : Place → Bool
  | j :: 0 :: path => decide (j = i) && s.expr.callAt path
  | _ => false

structure Performed where
  site : Site
  args : List Value
  result : Option Value

def Performed.events (p : Performed) : List Event :=
  .call p.site.callee p.args :: (p.result.map (Event.returned p.site.callee)).toList

def Event.atCall : Event → Bool
  | .call _ _ | .returned _ _ => true
  | _ => false

def ToldCalls (s t : State σ) (events : List Event) : Prop :=
  ∃ new, t.events = s.events ++ new ∧ new.filter Event.atCall = events

namespace ToldCalls

variable {s t u : State σ}

theorem quiet (same : t.trace = s.trace) : ToldCalls s t [] :=
  ⟨[], by rw [List.append_nil, State.events, same, State.events], rfl⟩

theorem one {e : Event} (same : t.events = s.events ++ [e]) : ToldCalls s t ([e].filter Event.atCall) :=
  ⟨[e], same, rfl⟩

theorem trans {first second : List Event} (before : ToldCalls s t first) (behind : ToldCalls t u second) :
    ToldCalls s u (first ++ second) := by
  obtain ⟨new, same, rfl⟩ := before
  obtain ⟨more, same', rfl⟩ := behind
  exact ⟨new ++ more, by rw [same', same, List.append_assoc], List.filter_append ..⟩

end ToldCalls

def Silent (m : Eval σ α) : Prop :=
  ∀ s, Ensures s m (fun _ t => ToldCalls s t []) fun _ t => ToldCalls s t []

variable {ctx : Context σ}

namespace Silent

theorem mute {m : Eval σ α} (mute : Mute m) : Silent m := fun s =>
  (mute s).weaken (fun _ _ same => .quiet same) fun _ _ same => .quiet same

theorem log (v : Value) : Silent (Eval.log ctx v) := by
  intro s
  have noted (e : Event) (plain : e.atCall = false) (store : Store σ) :
      ToldCalls s { s.noting e with store := store } [] := by
    have told : ToldCalls s { s.noting e with store := store } ([e].filter Event.atCall) :=
      .one (by simp [State.events, State.noting])
    rwa [List.filter_cons_of_neg (by simp [plain])] at told
  unfold Eval.log
  split
  · exact Eval.ensuresHeap (Eval.ensuresRecord (noted _ rfl _))
  · exact Eval.ensuresEmit (fun _ => .quiet rfl) (fun _ _ _ => noted _ rfl _)
      fun _ _ _ _ => noted _ rfl _

theorem applied (ctx : Context σ) : Applied ctx fun _ m => Silent m where
  pure a := mute (.pure a)
  fault f := mute (.throw (.fault f))
  bind first second s := Ensures.bind (first s) fun a t told =>
    (second a t).weaken (fun _ _ more => told.trans more) fun _ _ more => told.trans more
  store := mute .store
  setStore store := mute (.setStore store)
  log := log
  host args location _ := mute (.applyHost _ _ args location)

theorem apply (f : Callable σ) (name : Text) (args : List Value) (location : Option Location) :
    Silent (Eval.apply ctx f name args location) := by
  cases f with
  | builtin b => exact (applied ctx).applyBuiltin b args location
  | host f => exact mute (.applyHost f name args location)

theorem function (name : Text) (location : Option Location) :
    Silent (Eval.function ctx name location) := by
  unfold Eval.function
  split
  · exact mute (.pure _)
  · exact mute (.throw _)

theorem told {m : Eval σ α} (silent : Silent m) (s : State σ) : ToldCalls s (runFrom s m).2 [] := by
  unfold runFrom
  rcases (silent s).outcome with ⟨a, t, run, told⟩ | ⟨stop, t, run, told⟩ <;> rw [run] <;> exact told

end Silent

def invokedAt (isCall : Place → Bool) (ticks : List Tick) : List Place :=
  ticks.filterMap fun x =>
    match x.moment with
    | .acts p _ => if isCall p then some p else none
    | _ => none

/-- What was done at the calls of a list up to the end of a computation, or to where it stopped. Only
the last one can have no result, and if there is a value every call of the list was done. -/
structure Ordered (isCall : Place → Bool) (sites : List Site) (s : State σ) (made : List Performed)
    (ran : Except Stop α × State σ × List Tick) : Prop where
  told : ToldCalls s ran.2.1 (made.flatMap Performed.events)
  invoked : invokedAt isCall ran.2.2 = made.map fun p => p.site.place
  inOrder : made.map Performed.site <+: sites
  answered : ∀ p ∈ made.dropLast, p.result.isSome = true
  complete : ∀ a, ran.1 = .ok a →
    made.map Performed.site = sites ∧ ∀ p ∈ made, p.result.isSome = true

def Performs (isCall : Place → Bool) (sites : List Site) (m : Timed σ α) : Prop :=
  ∀ s, ∃ made, Ordered isCall sites s made (m s)

namespace Performs

variable {isCall : Place → Bool} {sites more : List Site} {p : Place}

theorem nothing {m : Timed σ α} (told : ∀ s, ToldCalls s (m s).2.1 [])
    (still : ∀ s, invokedAt isCall (m s).2.2 = []) : Performs isCall [] m := fun s =>
  ⟨[], told s, still s, List.nil_prefix, fun _ none => absurd none List.not_mem_nil,
    fun _ _ => ⟨rfl, fun _ none => absurd none List.not_mem_nil⟩⟩

theorem pure (a : α) : Performs isCall [] (Pure.pure a : Timed σ α) :=
  nothing (fun _ => .quiet rfl) fun _ => rfl

theorem bind {m : Timed σ α} {f : α → Timed σ β} (first : Performs isCall sites m)
    (second : ∀ a, Performs isCall more (f a)) : Performs isCall (sites ++ more) (m >>= f) := by
  intro s
  obtain ⟨made, ordered⟩ := first s
  rcases run : m s with ⟨stop | a, t, before⟩ <;> rw [run] at ordered
  · rw [Timed.bindStopped run]
    exact ⟨made, ordered.told, ordered.invoked, ordered.inOrder.trans (List.prefix_append _ _),
      ordered.answered, fun _ never => by cases never⟩
  · obtain ⟨made', ordered'⟩ := second a t
    obtain ⟨all, answered⟩ := ordered.complete a rfl
    rw [Timed.bindRan run]
    refine ⟨made ++ made', ?_, ?_, ?_, fun p member => ?_, fun b done => ?_⟩
    · rw [List.flatMap_append]
      exact ordered.told.trans ordered'.told
    · rw [List.map_append, ← ordered.invoked, ← ordered'.invoked]
      exact List.filterMap_append ..
    · rw [List.map_append, all]
      exact (List.prefix_append_right_inj _).mpr ordered'.inOrder
    · rcases made' with _ | ⟨x, rest⟩
      · exact answered p (by rw [List.append_nil] at member; exact List.dropLast_subset _ member)
      · rw [List.dropLast_append_of_ne_nil (List.cons_ne_nil x rest)] at member
        rcases List.mem_append.mp member with early | late
        · exact answered p early
        · exact ordered'.answered p late
    · obtain ⟨all', answered'⟩ := ordered'.complete b done
      refine ⟨by rw [List.map_append, all, all'], fun p member => ?_⟩
      rcases List.mem_append.mp member with early | late
      · exact answered p early
      · exact answered' p late

theorem thenNothing {m : Timed σ α} {f : α → Timed σ β} (first : Performs isCall sites m)
    (second : ∀ a, Performs isCall [] (f a)) : Performs isCall sites (m >>= f) := by
  have whole := first.bind second
  rwa [List.append_nil] at whole

theorem part (p : Place) {m : Eval σ α} (silent : Silent m) :
    Performs isCall [] (Timed.part ctx p m) := by
  refine nothing (fun s => ?_) fun s => ?_
  · have told := silent.told s
    unfold Timed.part
    generalize runFrom s m = ran at told ⊢
    rcases ran with ⟨stop | a, t⟩ <;> exact told
  · unfold Timed.part
    rcases runFrom s m with ⟨stop | a, t⟩ <;> rfl

theorem stopping (p : Place) (stop : Stop) :
    Performs isCall sites (Timed.part ctx p (throw stop : Eval σ α)) := fun _ =>
  ⟨[], .quiet rfl, rfl, List.nil_prefix, fun _ none => absurd none List.not_mem_nil,
    fun _ never => by cases never⟩

theorem enter (p : Place) (location : Option Location) {moments : List Moment}
    (still : ∀ s : State σ, invokedAt isCall (Timed.note ctx moments s).2.2 = []) :
    Performs isCall [] (Timed.enter ctx p location moments) :=
  (part p ((Silent.applied ctx).checkAborted location)).bind fun _ => nothing (fun _ => .quiet rfl) still

theorem acts (other : isCall p = false) (nodes : List Place) :
    Performs isCall [] (Timed.note ctx [.acts p nodes]) := by
  refine nothing (fun _ => .quiet rfl) fun s => ?_
  simp [invokedAt, Timed.note, other]

theorem invoke (observed : ctx.Observed) (here : isCall p = true) (nodes : List Place)
    (f : Callable σ) (name : Text) (args : List Value) (location : Option Location) :
    Performs isCall [⟨p, name⟩] (Timed.invoke ctx p nodes f name args location) := by
  intro s
  obtain ⟨t, called, before⟩ := emitObserved observed .call (.call name args) s
  have opened : Timed.part ctx p (Eval.emit ctx .call (.call name args)) s = (.ok (), t, []) := by
    rw [Timed.part, called]
  have noted : Timed.note ctx [.acts p nodes] t = (.ok (), t, [⟨.acts p nodes, ctx.late t⟩]) := rfl
  have silent : Silent (Eval.apply ctx f name args location) := .apply f name args location
  have during := silent.told t
  rw [Timed.invoke, Timed.bindRan opened, Timed.bindRan noted]
  rcases applied : runFrom t (Eval.apply ctx f name args location) with ⟨stop | v, u⟩ <;>
    rw [applied] at during
  · have stopped : Timed.part ctx p (Eval.apply ctx f name args location) t =
        (.error stop, u, [⟨.stops p stop, ctx.late u⟩]) := by rw [Timed.part, applied]
    rw [Timed.bindStopped stopped]
    refine ⟨[⟨⟨p, name⟩, args, none⟩], (ToldCalls.one before).trans during, ?_, List.prefix_refl _,
      fun _ none => absurd none List.not_mem_nil, fun _ never => by cases never⟩
    simp [invokedAt, here]
  · have valued : Timed.part ctx p (Eval.apply ctx f name args location) t = (.ok v, u, []) := by
      rw [Timed.part, applied]
    obtain ⟨w, returned, behind⟩ := emitObserved observed .returned (.returned name v) u
    have closed : Timed.part ctx p (Eval.emit ctx .returned (.returned name v)) u = (.ok (), w, []) := by
      rw [Timed.part, returned]
    rw [Timed.bindRan valued, Timed.bindRan closed]
    refine ⟨[⟨⟨p, name⟩, args, some v⟩], ((ToldCalls.one before).trans during).trans (.one behind), ?_,
      List.prefix_refl _, fun _ none => absurd none List.not_mem_nil, fun _ _ => ⟨rfl, fun q member => ?_⟩⟩
    · simp [invokedAt, here, Pure.pure]
    · cases List.mem_singleton.mp member
      rfl

end Performs

def Marks (isCall : Place → Bool) (p : Place) (e : Expr) : Prop :=
  ∀ path, isCall (p ++ path) = e.callAt path

def MarksAll (isCall : Place → Bool) (p : Place) (i : Nat) (elements : List (Option Expr)) : Prop :=
  ∀ j d, elements[j]? = some (some d) → Marks isCall (p ++ [i + j]) d

namespace Marks

variable {isCall : Place → Bool} {p : Place}

theorem here {e : Expr} (marks : Marks isCall p e) : isCall p = e.isCall := by
  have root := marks []
  rwa [List.append_nil] at root

theorem part {e d : Expr} (marks : Marks isCall p e) {i : Nat} (found : e.part? i = some d) :
    Marks isCall (p ++ [i]) d := by
  intro path
  rw [List.append_assoc]
  exact (marks (i :: path)).trans (by simp only [Expr.callAt, found])

theorem parts {e : Expr} (marks : Marks isCall p e) : MarksAll isCall p 0 e.parts := by
  intro j d found
  rw [Nat.zero_add]
  exact marks.part (congrArg Option.join found)

end Marks

namespace MarksAll

variable {isCall : Place → Bool} {p : Place} {i : Nat} {rest : List (Option Expr)}

theorem head {e : Expr} (marks : MarksAll isCall p i (some e :: rest)) : Marks isCall (p ++ [i]) e :=
  marks 0 e rfl

theorem tail {slot : Option Expr} (marks : MarksAll isCall p i (slot :: rest)) :
    MarksAll isCall p (i + 1) rest := by
  intro j d found
  have there := marks (j + 1) d found
  rwa [← Nat.add_assoc, Nat.add_right_comm] at there

end MarksAll

namespace Performs

variable {isCall : Place → Bool}

mutual

theorem expr (observed : ctx.Observed) {p : Place} {e : Expr} (marks : Marks isCall p e) :
    Performs isCall (e.calls p) (Timed.expr ctx p e) := by
  match e with
  | .literal s span => exact (enter p _ fun _ => rfl).bind fun _ => pure _
  | .sequence kind elements span =>
    refine (enter p _ fun _ => rfl).bind fun _ => ?_
    refine (slots observed _ elements marks.parts).thenNothing fun items => ?_
    exact (acts marks.here _).bind fun _ => part p ((Silent.applied ctx).allocSequence kind items)
  | .name n span =>
    exact (enter p _ fun _ => rfl).bind fun _ => part p ((Silent.applied ctx).lookup n _)
  | .call callee args span =>
    refine (enter p _ fun _ => rfl).bind fun _ => (part p (.function callee _)).bind fun f => ?_
    exact (exprs observed args marks.parts).bind fun vs =>
      invoke observed marks.here _ f callee vs _
  | .subscript object index span =>
    refine (enter p _ fun _ => rfl).bind fun _ => (expr observed (marks.part rfl)).bind fun o => ?_
    refine (expr observed (marks.part rfl)).thenNothing fun i => (acts marks.here _).bind fun _ => ?_
    exact part p ((Silent.applied ctx).bind (Silent.applied ctx).heap fun h => (Silent.applied ctx).ofFault _)
  | .unary op operand span =>
    refine (enter p _ fun _ => rfl).bind fun _ => ?_
    refine (expr observed (marks.part rfl)).thenNothing fun v => (acts marks.here _).bind fun _ => ?_
    exact part p ((Silent.applied ctx).applyUnary op v _)

theorem slots (observed : ctx.Observed) {p : Place} (literal : Expr) {i : Nat}
    (elements : List (Option Expr)) (marks : MarksAll isCall p i elements) :
    Performs isCall (Expr.slotCalls p i elements) (Timed.slots ctx p literal i elements) := by
  match elements with
  | [] => exact pure _
  | none :: rest => exact (enter p _ fun _ => rfl).bind fun _ => stopping p _
  | some e :: rest =>
    refine (enter p _ fun _ => rfl).bind fun _ => (expr observed marks.head).bind fun v => ?_
    exact (slots observed literal rest marks.tail).thenNothing fun vs => pure _

theorem exprs (observed : ctx.Observed) {p : Place} {i : Nat} (es : List Expr)
    (marks : MarksAll isCall p i (es.map some)) :
    Performs isCall (Expr.argCalls p i es) (Timed.exprs ctx p i es) := by
  match es with
  | [] => exact pure _
  | e :: rest =>
    refine (expr observed marks.head).bind fun v => ?_
    exact (exprs observed rest marks.tail).thenNothing fun vs => pure _

end

theorem statement (observed : ctx.Observed) {i : Nat} {s : Statement}
    (marks : Marks isCall [i, 0] s.expr) (root : isCall [i] = false) :
    Performs isCall (s.calls i) (Timed.statement ctx i s) := by
  refine (enter [i] _ fun _ => rfl).bind fun _ => ?_
  cases s with
  | expression e span => exact expr observed marks
  | assignment target value span =>
    refine (expr observed marks).thenNothing fun v => (acts root _).bind fun _ => ?_
    exact (part [i] ((Silent.applied ctx).bind (Silent.applied ctx).store fun _ =>
      (Silent.applied ctx).setStore _)).bind fun _ => pure v

end Performs

theorem Statement.marks (i : Nat) (s : Statement) : Marks (s.callAt i) [i, 0] s.expr := fun path => by
  simp [Statement.callAt]

theorem Statement.listed (i : Nat) (s : Statement) (q : Place) :
    q ∈ (s.calls i).map Site.place ↔ s.callAt i q = true := by
  rw [Statement.calls, (s.expr.listed [i, 0]).all]
  constructor
  · rintro ⟨path, rfl, call⟩
    rwa [s.marks i path]
  · intro call
    unfold Statement.callAt at call
    split at call
    · rename_i j path
      obtain ⟨same, call⟩ := (Bool.and_eq_true _ _).mp call
      exact ⟨path, by rw [of_decide_eq_true same]; rfl, call⟩
    · cases call

end SeqScript
