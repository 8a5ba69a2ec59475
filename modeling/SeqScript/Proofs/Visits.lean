import Mathlib.Data.List.Nodup
import SeqScript.Proofs.Run.CallOrder
import SeqScript.Proofs.Tree.Spans
import SeqScript.Tree.Traversal

/-! What a walk of a tree comes to. It stands twice at each node that is there, before and behind the
walks of the node's children, and whatever its two functions do is done along the trace of these
marks. The nodes are entered in the order of their places, which is that of the list in pre-order and of
every visitor that goes down into all children; in a tree that was read it is that of the source. -/
namespace SeqScript

inductive Mark (α : Type) where
  | enter (a : α)
  | exit (a : α)

namespace Mark

variable {α β γ : Type}

def map (f : α → β) : Mark α → Mark β
  | enter a => enter (f a)
  | exit a => exit (f a)

def entered? : Mark α → Option α
  | enter a => some a
  | exit _ => none

def tell (enter exit : Node → α → α) (a : α) : Mark Node → α
  | .enter n => enter n a
  | .exit n => exit n a

def entering (n : Node) (t : List (Mark Node)) : List (Mark Node) := t ++ [.enter n]

def exiting (n : Node) (t : List (Mark Node)) : List (Mark Node) := t ++ [.exit n]

end Mark

namespace Expr

variable {α : Type} (enter exit : Node → α → α)

theorem walkSlotsFold (elements : List (Option Expr)) (a : α) :
    walkSlots enter exit elements a =
      (elements.filterMap id).foldl (fun a e => e.walk enter exit a) a := by
  induction elements generalizing a with
  | nil => simp [walkSlots]
  | cons slot rest ih => cases slot <;> simp [walkSlots, ih]

theorem walkAllFold (es : List Expr) (a : α) :
    walkAll enter exit es a = es.foldl (fun a e => e.walk enter exit a) a := by
  induction es generalizing a with
  | nil => simp [walkAll]
  | cons e rest ih => simp [walkAll, ih]

end Expr

namespace Node

def slots : Node → List (Option Node)
  | script s => s.statements.map fun t => some (statement t)
  | statement s => [some (expression s.expr)]
  | expression e => e.parts.map (Option.map expression)

def children (n : Node) : List Node := n.slots.filterMap id

def at? : Node → Place → Option Node
  | n, [] => some n
  | n, i :: p => n.slots[i]?.join.bind fun c => c.at? p

def trace (n : Node) : List (Mark Node) := n.walk Mark.entering Mark.exiting []

def entered (n : Node) : List Node := n.trace.filterMap Mark.entered?

theorem scriptChildren (s : Script) : (script s).children = s.statements.map statement := by
  simp [children, slots, List.filterMap_map]

theorem statementChildren (s : Statement) : (statement s).children = [expression s.expr] := rfl

theorem expressionChildren (e : Expr) : (expression e).children = e.children.map expression := by
  have behind (es : List (Option Expr)) : (es.map (Option.map expression)).filterMap id =
      (es.filterMap id).map expression := by
    induction es with
    | nil => rfl
    | cons slot rest ih => cases slot <;> simp_all
  rw [children, slots, behind]
  cases e <;> simp [Expr.parts, Expr.children, List.filterMap_map]

end Node

namespace Expr

mutual

theorem ofChildren {P : Node → Prop} (step : ∀ n : Node, (∀ c ∈ n.children, P c) → P n) (e : Expr) :
    P (.expression e) := by
  apply step
  rw [Node.expressionChildren]
  match e with
  | .literal _ _ => simp [children]
  | .sequence _ elements _ => simpa [children] using ofSlots step elements
  | .name _ _ => simp [children]
  | .call _ args _ => simpa [children] using ofArgs step args
  | .subscript object index _ => simp [children, ofChildren step object, ofChildren step index]
  | .unary _ operand _ => simp [children, ofChildren step operand]

theorem ofSlots {P : Node → Prop} (step : ∀ n : Node, (∀ c ∈ n.children, P c) → P n)
    (elements : List (Option Expr)) : ∀ e, some e ∈ elements → P (.expression e) := by
  match elements with
  | [] => simp
  | none :: rest => simpa using ofSlots step rest
  | some e :: rest => simpa [ofChildren step e] using ofSlots step rest

theorem ofArgs {P : Node → Prop} (step : ∀ n : Node, (∀ c ∈ n.children, P c) → P n)
    (es : List Expr) : ∀ e ∈ es, P (.expression e) := by
  match es with
  | [] => simp
  | e :: rest => simpa [ofChildren step e] using ofArgs step rest

end

end Expr

namespace Node

theorem ofChildren {P : Node → Prop} (step : ∀ n : Node, (∀ c ∈ n.children, P c) → P n) (n : Node) :
    P n := by
  have statements (s : Statement) : P (.statement s) := by
    apply step
    simpa [statementChildren] using s.expr.ofChildren step
  cases n with
  | script s =>
    apply step
    simpa [scriptChildren] using fun s _ => statements s
  | statement s => exact statements s
  | expression e => exact e.ofChildren step

section

variable {α : Type} (enter exit : Node → α → α)

theorem walkStep (n : Node) (a : α) : n.walk enter exit a =
    exit n (n.children.foldl (fun a c => c.walk enter exit a) (enter n a)) := by
  cases n with
  | script s => simp [walk, scriptChildren, List.foldl_map]
  | statement s => cases s <;> simp [walk, Statement.walk, statementChildren, Statement.expr]
  | expression e =>
    rw [expressionChildren, List.foldl_map]
    cases e <;>
      simp [walk, Expr.walk, Expr.children, Expr.walkSlotsFold, Expr.walkAllFold]

end

theorem tracesBehind {cs : List Node}
    (each : ∀ c ∈ cs, ∀ t, c.walk Mark.entering Mark.exiting t = t ++ c.trace)
    (t : List (Mark Node)) :
    cs.foldl (fun t c => c.walk Mark.entering Mark.exiting t) t = t ++ cs.flatMap trace := by
  induction cs generalizing t with
  | nil => simp
  | cons c rest ih =>
    obtain ⟨first, others⟩ := List.forall_mem_cons.mp each
    rw [List.foldl_cons, first, ih others, List.flatMap_cons, List.append_assoc]

theorem traceBehind (n : Node) (t : List (Mark Node)) :
    n.walk Mark.entering Mark.exiting t = t ++ n.trace := by
  induction n using ofChildren generalizing t with | step n ih
  rw [trace, walkStep, walkStep, tracesBehind ih, tracesBehind ih]
  simp [Mark.entering, Mark.exiting]

theorem traceNested (n : Node) : n.trace = .enter n :: (n.children.flatMap trace ++ [.exit n]) := by
  rw [trace, walkStep, tracesBehind fun c _ => traceBehind c]
  simp [Mark.entering, Mark.exiting]

theorem walkTold {α : Type} (enter exit : Node → α → α) (n : Node) (a : α) :
    n.walk enter exit a = n.trace.foldl (Mark.tell enter exit) a := by
  induction n using ofChildren generalizing a with | step n ih
  have inside (cs : List Node) (known : ∀ c ∈ cs, ∀ a, c.walk enter exit a =
      c.trace.foldl (Mark.tell enter exit) a) (a : α) :
      cs.foldl (fun a c => c.walk enter exit a) a =
        (cs.flatMap trace).foldl (Mark.tell enter exit) a := by
    induction cs generalizing a with
    | nil => rfl
    | cons c rest next =>
      obtain ⟨first, others⟩ := List.forall_mem_cons.mp known
      rw [List.foldl_cons, first, next others, List.flatMap_cons, List.foldl_append]
  rw [walkStep, traceNested, inside _ ih, List.foldl_cons, List.foldl_append]
  rfl

theorem enteredNested (n : Node) : n.entered = n :: n.children.flatMap entered := by
  have last : [Mark.exit n].filterMap Mark.entered? = [] := rfl
  rw [entered, traceNested, List.filterMap_cons, List.filterMap_append, List.filterMap_flatMap, last,
    List.append_nil]
  rfl

end Node

/-- Visitors, one for each depth, that list the node they visit and go down into each child that is
there, in order. -/
def NodeVisitor.Descends (v : Nat → NodeVisitor (List (Node × Nat))) : Prop :=
  ∀ (n : Node) (depth : Nat),
    n.accept (v depth) = (n, depth) :: n.children.flatMap fun c => c.accept (v (depth + 1))

namespace Expr

theorem preorderSlotsListed (depth : Nat) (elements : List (Option Expr)) :
    preorderSlots depth elements = (elements.filterMap id).flatMap (preorder depth) := by
  induction elements with
  | nil => rfl
  | cons slot rest ih => cases slot <;> simp [preorderSlots, ih]

theorem preorderAllListed (depth : Nat) (es : List Expr) :
    preorderAll depth es = es.flatMap (preorder depth) := by
  induction es with
  | nil => rfl
  | cons e rest ih => rw [preorderAll, ih, List.flatMap_cons]

theorem acceptLister (depth : Nat) (e : Expr) :
    (Node.expression e).accept (.lister depth) = e.preorder depth := by
  cases e with
  | literal v span => cases v <;> rfl
  | _ => rfl

theorem preorderChildren (depth : Nat) (e : Expr) :
    e.preorder depth = (.expression e, depth) :: e.children.flatMap (preorder (depth + 1)) := by
  cases e with
  | literal => rfl
  | name => rfl
  | sequence _ elements => rw [preorder, preorderSlotsListed, children]
  | call _ args => rw [preorder, preorderAllListed, children]
  | subscript => simp [preorder, children]
  | unary => simp [preorder, children]

end Expr

theorem Statement.acceptLister (depth : Nat) (s : Statement) :
    (Node.statement s).accept (.lister depth) = s.preorder depth := by
  cases s <;> rfl

namespace NodeVisitor

theorem listerDescends : Descends lister := by
  intro n depth
  cases n with
  | script s =>
    rw [Node.scriptChildren, List.flatMap_map]
    simp only [Statement.acceptLister]
    rfl
  | statement s =>
    rw [Node.statementChildren, List.flatMap_singleton, Expr.acceptLister]
    cases s <;> rfl
  | expression e =>
    rw [Node.expressionChildren, List.flatMap_map, Expr.acceptLister, Expr.preorderChildren]
    simp only [Expr.acceptLister]

theorem acceptLister (n : Node) : n.accept (lister 0) = n.preorder := by
  cases n with
  | script s => rfl
  | statement s => exact s.acceptLister 0
  | expression e => exact e.acceptLister 0

/- Visitors that go down into all children do so in one way. -/
theorem Descends.unique {v w : Nat → NodeVisitor (List (Node × Nat))} (first : Descends v)
    (second : Descends w) (n : Node) (depth : Nat) : n.accept (v depth) = n.accept (w depth) := by
  induction n using Node.ofChildren generalizing depth with | step n ih
  rw [first, second]
  exact congrArg _ (List.flatMap_congr fun c child => ih c child (depth + 1))

/- The depths of such a list do not tell which nodes are in it. -/
theorem Descends.entered {v : Nat → NodeVisitor (List (Node × Nat))} (descends : Descends v) (n : Node)
    (depth : Nat) : (n.accept (v depth)).map Prod.fst = n.entered := by
  induction n using Node.ofChildren generalizing depth with | step n ih
  rw [descends, Node.enteredNested, List.map_cons, List.map_flatMap]
  exact congrArg _ (List.flatMap_congr fun c child => ih c child (depth + 1))

end NodeVisitor

theorem Node.preorderEntered (n : Node) : n.preorder.map Prod.fst = n.entered := by
  rw [← NodeVisitor.acceptLister]
  exact NodeVisitor.listerDescends.entered n 0

namespace Mark

variable {α β γ : Type}

theorem mapMap (f : α → β) (g : β → γ) (m : Mark α) : (m.map f).map g = m.map fun a => g (f a) := by
  cases m <;> rfl

theorem mapInjective {f : α → β} (injective : Function.Injective f) :
    Function.Injective (Mark.map f) := by
  intro m n same
  cases m <;> cases n <;> simp_all [map, injective.eq_iff]

theorem enteredMap (f : α → β) (ms : List (Mark α)) :
    (ms.map (Mark.map f)).filterMap entered? = (ms.filterMap entered?).map f := by
  induction ms with
  | nil => rfl
  | cons m rest ih =>
    cases m with
    | enter a => simpa [map, entered?] using ih
    | exit a =>
      rw [List.map_cons, List.filterMap_cons_none rfl, List.filterMap_cons_none rfl, ih]

theorem memEntered {ms : List (Mark α)} {a : α} : a ∈ ms.filterMap entered? ↔ enter a ∈ ms := by
  rw [List.mem_filterMap]
  constructor
  · intro ⟨m, inside, found⟩
    cases m with
    | enter b =>
      cases found
      exact inside
    | exit b => cases found
  · exact fun inside => ⟨_, inside, rfl⟩

theorem enterMapped {f : α → β} {ms : List (Mark α)} {b : β} :
    enter b ∈ ms.map (Mark.map f) ↔ ∃ a, enter a ∈ ms ∧ f a = b := by
  rw [List.mem_map]
  constructor
  · intro ⟨m, inside, same⟩
    cases m with
    | enter a => exact ⟨a, inside, enter.inj same⟩
    | exit a => cases same
  · intro ⟨a, inside, same⟩
    exact ⟨_, inside, congrArg enter same⟩

theorem exitMapped {f : α → β} {ms : List (Mark α)} {b : β} :
    exit b ∈ ms.map (Mark.map f) ↔ ∃ a, exit a ∈ ms ∧ f a = b := by
  rw [List.mem_map]
  constructor
  · intro ⟨m, inside, same⟩
    cases m with
    | enter a => cases same
    | exit a => exact ⟨a, inside, exit.inj same⟩
  · intro ⟨a, inside, same⟩
    exact ⟨_, inside, congrArg exit same⟩

end Mark

/-- Marks at places, as the marks of a trace tell them: two for each place where something is, the
first ones in the order of the places. -/
structure Visits (find : Place → Option Node) (vs : List (Mark Place)) (t : List (Mark Node)) :
    Prop where
  told : vs.map (Mark.map find) = t.map (Mark.map some)
  once : vs.Nodup
  entered : ∀ p, .enter p ∈ vs ↔ (find p).isSome = true
  exited : ∀ p, .exit p ∈ vs ↔ (find p).isSome = true
  ordered : (vs.filterMap Mark.entered?).Pairwise (· < ·)

theorem noVisits : Visits (fun _ => none) [] [] where
  told := rfl
  once := List.nodup_nil
  entered p := by simp
  exited p := by simp
  ordered := .nil

structure Places (find first second : Place → Option Node) (f g : Place → Place) : Prop where
  left : ∀ p, find (f p) = first p
  right : ∀ p, find (g p) = second p
  all : ∀ p, (find p).isSome = true → (∃ q, f q = p) ∨ ∃ q, g q = p
  increasing : ∀ p q, p < q → f p < f q ∧ g p < g q
  injective : Function.Injective f ∧ Function.Injective g
  apart : ∀ p q, (second q).isSome = true → f p < g q

theorem Places.found {find first second : Place → Option Node} {f g : Place → Place}
    (places : Places find first second f g) (p : Place) : (find p).isSome = true ↔
      (∃ q, (first q).isSome = true ∧ f q = p) ∨ ∃ q, (second q).isSome = true ∧ g q = p := by
  constructor
  · intro there
    rcases places.all p there with ⟨q, rfl⟩ | ⟨q, rfl⟩
    · exact .inl ⟨q, places.left q ▸ there, rfl⟩
    · exact .inr ⟨q, places.right q ▸ there, rfl⟩
  · rintro (⟨q, there, rfl⟩ | ⟨q, there, rfl⟩)
    · rwa [places.left]
    · rwa [places.right]

theorem Visits.join {find first second : Place → Option Node} {f g : Place → Place}
    {vs ws : List (Mark Place)} {t u : List (Mark Node)} (visits : Visits first vs t)
    (others : Visits second ws u) (places : Places find first second f g) :
    Visits find (vs.map (Mark.map f) ++ ws.map (Mark.map g)) (t ++ u) := by
  have tell (h : Place → Option Node) (k : Place → Place) (ms : List (Mark Place))
      (same : ∀ p, find (k p) = h p) :
      (ms.map (Mark.map k)).map (Mark.map find) = ms.map (Mark.map h) := by
    simp [Mark.mapMap, same]
  have differ (p q : Place) (there : (second q).isSome = true) : f p ≠ g q :=
    fun same => List.lt_irrefl _ (same ▸ places.apart p q there)
  have distinct (m : Mark Place) (here : m ∈ vs.map (Mark.map f)) (n : Mark Place)
      (later : n ∈ ws.map (Mark.map g)) : m ≠ n := by
    intro same
    subst same
    cases m with
    | enter p =>
      obtain ⟨x, -, rfl⟩ := Mark.enterMapped.mp here
      obtain ⟨y, behind, same⟩ := Mark.enterMapped.mp later
      exact differ x y ((others.entered y).mp behind) same.symm
    | exit p =>
      obtain ⟨x, -, rfl⟩ := Mark.exitMapped.mp here
      obtain ⟨y, behind, same⟩ := Mark.exitMapped.mp later
      exact differ x y ((others.exited y).mp behind) same.symm
  have between (p : Place) (here : p ∈ (vs.filterMap Mark.entered?).map f) (q : Place)
      (later : q ∈ (ws.filterMap Mark.entered?).map g) : p < q := by
    obtain ⟨x, -, rfl⟩ := List.mem_map.mp here
    obtain ⟨y, behind, rfl⟩ := List.mem_map.mp later
    exact places.apart x y ((others.entered y).mp (Mark.memEntered.mp behind))
  exact {
    told := by
      rw [List.map_append, tell first f vs places.left, tell second g ws places.right, visits.told,
        others.told, List.map_append]
    once := List.nodup_append.mpr ⟨visits.once.map (Mark.mapInjective places.injective.1),
      others.once.map (Mark.mapInjective places.injective.2), distinct⟩
    entered p := by simp [places.found, ← visits.entered, ← others.entered, Mark.enterMapped]
    exited p := by simp [places.found, ← visits.exited, ← others.exited, Mark.exitMapped]
    ordered := by
      have front := visits.ordered.imp fun {p q} before => (places.increasing p q before).1
      have rear := others.ordered.imp fun {p q} before => (places.increasing p q before).2
      rw [List.filterMap_append, Mark.enteredMap, Mark.enteredMap, List.pairwise_append,
        List.pairwise_map, List.pairwise_map]
      exact ⟨front, rear, between⟩ }

namespace Node

def atSlots (slots : List (Option Node)) : Place → Option Node
  | [] => none
  | i :: p => slots[i]?.join.bind fun c => c.at? p

theorem slotPlaces (slot : Option Node) (rest : List (Option Node)) :
    Places (atSlots (slot :: rest)) (fun p => slot.bind fun c => c.at? p) (atSlots rest) (0 :: ·)
      (List.modifyHead (· + 1)) where
  left p := by simp [atSlots]
  right p := by cases p <;> simp [atSlots]
  all p there := by
    cases p with
    | nil => cases there
    | cons i p =>
      cases i with
      | zero => exact .inl ⟨p, rfl⟩
      | succ i => exact .inr ⟨i :: p, rfl⟩
  increasing p q before := by
    constructor
    · exact List.cons_lt_cons_iff.mpr (.inr ⟨rfl, before⟩)
    · cases q with
      | nil => exact absurd before (List.not_lt_nil p)
      | cons j q =>
        cases p with
        | nil => exact List.nil_lt_cons (j + 1) q
        | cons i p => simpa [List.cons_lt_cons_iff] using before
  injective := by
    constructor
    · exact List.cons_injective
    · intro p q same
      cases p <;> cases q <;> simp_all
  apart p q there := by
    cases q with
    | nil => cases there
    | cons i q => exact List.cons_lt_cons_iff.mpr (.inl i.succ_pos)

theorem slotVisits {slots : List (Option Node)}
    (each : ∀ c, some c ∈ slots → ∃ vs, Visits c.at? vs c.trace) :
    ∃ vs, Visits (atSlots slots) vs ((slots.filterMap id).flatMap trace) := by
  induction slots with
  | nil =>
    have nowhere : atSlots [] = fun _ => none := by
      funext p
      cases p <;> rfl
    exact ⟨[], nowhere ▸ noVisits⟩
  | cons slot rest ih =>
    obtain ⟨ws, others⟩ := ih fun c inside => each c (List.mem_cons_of_mem slot inside)
    cases slot with
    | none => exact ⟨_, noVisits.join others (slotPlaces none rest)⟩
    | some c =>
      obtain ⟨vs, visits⟩ := each c List.mem_cons_self
      exact ⟨_, visits.join others (slotPlaces (some c) rest)⟩

theorem atInner {n : Node} {p : Place} (inner : p ≠ []) : n.at? p = atSlots n.slots p := by
  cases p with
  | nil => exact absurd rfl inner
  | cons i p => rfl

theorem enclosedVisits {n : Node} {vs : List (Mark Place)} {t : List (Mark Node)}
    (visits : Visits (atSlots n.slots) vs t) :
    Visits n.at? (.enter [] :: (vs ++ [.exit []])) (.enter n :: (t ++ [.exit n])) := by
  have inner (p : Place) (there : (atSlots n.slots p).isSome = true) : p ≠ [] := by
    rintro rfl
    cases there
  have enters (p : Place) (inside : .enter p ∈ vs) := inner p ((visits.entered p).mp inside)
  have exits (p : Place) (inside : .exit p ∈ vs) := inner p ((visits.exited p).mp inside)
  have same : vs.map (Mark.map n.at?) = vs.map (Mark.map (atSlots n.slots)) := by
    apply List.map_congr_left
    intro m inside
    cases m with
    | enter p => exact congrArg Mark.enter (atInner (enters p inside))
    | exit p => exact congrArg Mark.exit (atInner (exits p inside))
  have first : Mark.enter [] ∉ vs ++ [Mark.exit []] := by
    simpa using fun inside => enters [] inside rfl
  have last : Mark.exit [] ∉ vs := fun inside => exits [] inside rfl
  have stop : [Mark.exit ([] : Place)].filterMap Mark.entered? = [] := rfl
  exact {
    told := by simp [same, visits.told, Mark.map, at?]
    once := by
      have closed : (vs ++ [Mark.exit []]).Nodup :=
        List.nodup_append.mpr ⟨visits.once, List.nodup_singleton _, fun m here w behind same =>
          last (List.mem_singleton.mp behind ▸ same ▸ here)⟩
      exact List.nodup_cons.mpr ⟨first, closed⟩
    entered p := by
      by_cases root : p = []
      · simp [root, at?]
      · simp [root, visits.entered, atInner root]
    exited p := by
      by_cases root : p = []
      · simp [root, at?]
      · simp [root, visits.exited, atInner root]
    ordered := by
      rw [List.filterMap_cons, List.filterMap_append, stop, List.append_nil]
      apply List.Pairwise.cons
      · intro p inside
        have inner := enters p (Mark.memEntered.mp inside)
        cases p with
        | nil => exact absurd rfl inner
        | cons i p => exact List.nil_lt_cons i p
      · exact visits.ordered }

theorem visits (n : Node) : ∃ vs, Visits n.at? vs n.trace := by
  induction n using ofChildren with | step n ih
  obtain ⟨vs, visits⟩ := slotVisits fun c inside =>
    ih c (List.mem_filterMap.mpr ⟨some c, inside, rfl⟩)
  rw [traceNested]
  exact ⟨_, enclosedVisits visits⟩

structure Spreads (n : Node) : Prop where
  within : ∀ c ∈ n.children, c.span.start.offset ≤ c.span.stop.offset ∧ c.span.Within n.span
  ordered : n.children.Pairwise fun c d => c.span.Before d.span

structure Rises (n : Node) : Prop where
  least : ∀ m ∈ n.entered, n.span.start.offset ≤ m.span.start.offset
  most : n.span.start.offset ≤ n.span.stop.offset →
    ∀ m ∈ n.entered, m.span.start.offset ≤ n.span.stop.offset
  ordered : n.entered.Pairwise fun m l => m.span.start.offset ≤ l.span.start.offset

theorem risesIfSpread {n : Node} (spreads : ∀ m ∈ n.entered, m.Spreads) : n.Rises := by
  induction n using ofChildren with | step n ih
  rw [enteredNested, List.forall_mem_cons] at spreads
  have rises (c : Node) (child : c ∈ n.children) : c.Rises :=
    ih c child fun m inside => spreads.2 m (List.mem_flatMap.mpr ⟨c, child, inside⟩)
  have inner (m : Node) (inside : m ∈ n.children.flatMap entered) : ∃ c ∈ n.children, m ∈ c.entered :=
    List.mem_flatMap.mp inside
  have least (m : Node) (inside : m ∈ n.children.flatMap entered) :
      n.span.start.offset ≤ m.span.start.offset := by
    obtain ⟨c, child, inside⟩ := inner m inside
    exact Nat.le_trans (spreads.1.within c child).2.1 ((rises c child).least m inside)
  have most (forward : n.span.start.offset ≤ n.span.stop.offset) (m : Node)
      (inside : m ∈ n.children.flatMap entered) : m.span.start.offset ≤ n.span.stop.offset := by
    obtain ⟨c, child, inside⟩ := inner m inside
    obtain ⟨forward, within⟩ := spreads.1.within c child
    exact Nat.le_trans ((rises c child).most forward m inside) within.2
  have between {c d : Node} (first : c ∈ n.children) (second : d ∈ n.children)
      (before : c.span.Before d.span) (m : Node) (inside : m ∈ c.entered) (l : Node)
      (behind : l ∈ d.entered) : m.span.start.offset ≤ l.span.start.offset := by
    calc m.span.start.offset
      _ ≤ c.span.stop.offset := (rises c first).most (spreads.1.within c first).1 m inside
      _ ≤ d.span.start.offset := before
      _ ≤ l.span.start.offset := (rises d second).least l behind
  have ordered := List.pairwise_flatMap.mpr
    ⟨fun c child => (rises c child).ordered, spreads.1.ordered.imp_of_mem between⟩
  constructor <;> rw [enteredNested]
  · exact List.forall_mem_cons.mpr ⟨Nat.le_refl _, least⟩
  · exact fun forward => List.forall_mem_cons.mpr ⟨forward, most forward⟩
  · exact .cons least ordered

end Node

namespace Expr

variable {node : Expr → Prop} {hole : Prop}

theorem AllSlots.present {slots : List (Option Expr)} (all : AllSlots node hole slots) {c : Expr}
    (member : some c ∈ slots) : c.All node hole := by
  induction slots with
  | nil => cases member
  | cons slot rest ih =>
    cases slot with
    | none => exact ih all.2 (by simpa using member)
    | some e =>
      rcases List.mem_cons.mp member with same | behind
      · cases same
        exact all.1
      · exact ih all.2 behind

theorem All.child {e c : Expr} (all : e.All node hole) (member : c ∈ e.children) :
    c.All node hole := by
  cases e with
  | literal _ _ => cases member
  | sequence _ elements _ =>
    exact AllSlots.present all.2 (by simpa [children] using member)
  | name _ _ => cases member
  | call _ args _ => exact allArgsIff.mp all.2 c member
  | subscript object index _ =>
    obtain rfl | rfl : c = object ∨ c = index := by simpa [children] using member
    · exact all.2.1
    · exact all.2.2
  | unary _ operand _ =>
    obtain rfl : c = operand := by simpa [children] using member
    exact all.2

end Expr

namespace Node

variable {source : Text}

theorem spreadsOfExpr {e : Expr} (all : e.All (Expr.Stands source) False) :
    ∀ m ∈ (expression e).entered, m.Spreads := by
  generalize same : expression e = n
  induction n using ofChildren generalizing e with | step n ih
  subst same
  have children : ∀ c ∈ (expression e).children, ∃ d ∈ e.children, expression d = c := by
    simp [expressionChildren]
  have within (c : Node) (child : c ∈ (expression e).children) :
      c.span.start.offset ≤ c.span.stop.offset ∧ c.span.Within (expression e).span := by
    obtain ⟨d, member, rfl⟩ := children c child
    exact ⟨(all.child member).root.covers.nonempty.le, all.root.within d member⟩
  have ordered : (expression e).children.Pairwise fun c d => c.span.Before d.span := by
    rw [expressionChildren, List.pairwise_map]
    exact all.root.ordered
  have inner (m : Node) (inside : m ∈ (expression e).children.flatMap entered) : m.Spreads := by
    obtain ⟨c, child, inside⟩ := List.mem_flatMap.mp inside
    obtain ⟨d, member, rfl⟩ := children c child
    exact ih _ child (all.child member) rfl m inside
  rw [enteredNested]
  exact List.forall_mem_cons.mpr ⟨⟨within, ordered⟩, inner⟩

theorem spreadsOfStatement {s : Statement} (stands : s.Stands source) :
    ∀ m ∈ (statement s).entered, m.Spreads := by
  have within : ∀ c ∈ (statement s).children,
      c.span.start.offset ≤ c.span.stop.offset ∧ c.span.Within (statement s).span :=
    List.forall_mem_singleton.mpr ⟨stands.nodes.root.covers.nonempty.le, stands.within⟩
  rw [enteredNested, statementChildren, List.flatMap_singleton]
  exact List.forall_mem_cons.mpr ⟨⟨within, List.pairwise_singleton ..⟩, spreadsOfExpr stands.nodes⟩

theorem risesIfRead {s : Script} (read : Parser.script source = .ok s) : (script s).Rises := by
  obtain ⟨stand, ordered⟩ := Parser.spansOfScript read
  have within : ∀ c ∈ (script s).children,
      c.span.start.offset ≤ c.span.stop.offset ∧ c.span.Within (script s).span := by
    rw [scriptChildren]
    exact List.forall_mem_map.mpr fun t member =>
      ⟨(stand t member).1.covers.nonempty.le, (stand t member).2⟩
  have behind : (script s).children.Pairwise fun c d => c.span.Before d.span := by
    rw [scriptChildren, List.pairwise_map]
    exact ordered
  have inner (m : Node) (inside : m ∈ (script s).children.flatMap entered) : m.Spreads := by
    rw [scriptChildren, List.flatMap_map] at inside
    obtain ⟨t, member, inside⟩ := List.mem_flatMap.mp inside
    exact spreadsOfStatement (stand t member).1 m inside
  apply risesIfSpread
  rw [enteredNested]
  exact List.forall_mem_cons.mpr ⟨⟨within, behind⟩, inner⟩

/- A walk enters and leaves each node of a tree once, by its place, with the traces of its children
between the two and in their order; it enters the nodes in the order of the list in pre-order, as do
visitors that go down into all children. In a script that was read it never goes back in the source. -/
theorem visitedInOrder (n : Node) :
    (∀ (α : Type) (enter exit : Node → α → α) (a : α),
      n.walk enter exit a = n.trace.foldl (Mark.tell enter exit) a) ∧
    n.trace = .enter n :: (n.children.flatMap trace ++ [.exit n]) ∧
    (∃ vs, Visits n.at? vs n.trace) ∧
    n.preorder.map Prod.fst = n.entered ∧
    (NodeVisitor.Descends NodeVisitor.lister ∧
      ∀ v, NodeVisitor.Descends v → n.accept (v 0) = n.preorder) ∧
    ∀ source s, Parser.script source = .ok s → n = script s →
      n.entered.Pairwise fun m l => m.span.start.offset ≤ l.span.start.offset :=
  ⟨fun _ enter exit => n.walkTold enter exit, n.traceNested, n.visits, n.preorderEntered,
    ⟨NodeVisitor.listerDescends, fun _ descends =>
      (descends.unique NodeVisitor.listerDescends n 0).trans (NodeVisitor.acceptLister n)⟩,
    fun _ _ read same => same ▸ (risesIfRead read).ordered⟩

theorem nestedVisitedInOrder :
    ∃ s, Parser.script (text "x = (1, -[2])[0] # one\nlen(x)") = .ok s ∧
      (script s).entered.length = 12 ∧
      (script s).entered.Pairwise fun m l => m.span.start.offset ≤ l.span.start.offset := by
  obtain ⟨s, read⟩ := Parser.readIfOk (text "x = (1, -[2])[0] # one\nlen(x)") (by decide +kernel)
  have count : (Parser.script (text "x = (1, -[2])[0] # one\nlen(x)")).map
      (fun s => (script s).entered.length) = .ok 12 := by decide +kernel
  rw [read] at count
  exact ⟨s, read, Except.ok.inj count, (visitedInOrder (script s)).2.2.2.2.2 _ s read rfl⟩

end Node

end SeqScript
