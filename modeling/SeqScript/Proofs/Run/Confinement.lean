import SeqScript.Proofs.Bindings
import SeqScript.Proofs.Run.NewSequences

/-! What a run can change where the functions are builtins. It begins in the region that its variables
lead into, and that region only grows by what the run creates: whatever a value of the region leads to
is in it already, and nothing else is ever taken up or written to. -/
namespace SeqScript
open Relation (ReflTransGen)
open Stepper (runFrom)

variable {σ : Type}

structure Listener.LeavesValues (listener : Listener σ) : Prop where
  keeps : ∀ e (s : Store σ), s.heap.Keeps (listener e s).2.heap
  objects : ∀ e (s : Store σ) r, r < s.heap.objects.size →
    (listener e s).2.heap.get r = s.heap.get r
  bindings : ∀ e s, (listener e s).2.bindings = s.bindings

structure Context.Unaided (ctx : Context σ) : Prop where
  noHost : ∀ name f, ctx.functions.get? name ≠ some (.host f)
  listener : ∀ kind listener, ctx.listener kind = some listener → listener.LeavesValues

def State.Reaches (s : State σ) (r : Ref) : Prop :=
  ∃ p ∈ s.store.bindings, s.store.heap.Reaches p.2 r

structure Encloses (region : Ref → Prop) (s : State σ) : Prop where
  values : s.store.heap.Sealed region
  bindings : ∀ p ∈ s.store.bindings, p.2.In region

/-- From one state to the other only objects of the region were changed, and the region has grown by new
objects of the context's domain. -/
structure Confined (ctx : Context σ) (region : Ref → Prop) (s : State σ) (wider : Ref → Prop)
    (t : State σ) : Prop where
  keeps : s.store.heap.Keeps t.store.heap
  spared : ∀ r, r < s.store.heap.objects.size → ¬ region r →
    t.store.heap.get r = s.store.heap.get r
  more : ∀ r, region r → wider r
  new : ∀ r, wider r → region r ∨ s.store.heap.objects.size ≤ r ∧
    r < t.store.heap.objects.size ∧ (t.store.heap.get r).OwnedBy ctx.domain
  encloses : Encloses wider t

variable {ctx : Context σ}

theorem Context.Unaided.keepsHeap (unaided : ctx.Unaided) : ctx.KeepsHeap where
  host name f _ _ there := absurd there (unaided.noHost name f)
  listener kind listener e s there := (unaided.listener kind listener there).keeps e s

theorem State.reachesEncloses {s : State σ} (held : ∀ r, s.Reaches r → s.store.heap.holds r = true) :
    Encloses s.Reaches s where
  values :=
    { inside := fun r reached => of_decide_eq_true (held r reached)
      closed := fun r ⟨p, member, q, same, path⟩ v there => by
        cases v with
        | scalar x => trivial
        | object t => exact ⟨p, member, q, same, path.tail there⟩ }
  bindings p member := by
    obtain ⟨name, v⟩ := p
    cases v with
    | scalar x => trivial
    | object r => exact ⟨_, member, r, rfl, .refl⟩

namespace Confined

variable {region wider widest : Ref → Prop} {s t u : State σ}

theorem still (encloses : Encloses region s) (keeps : s.store.heap.Keeps t.store.heap)
    (objects : ∀ r, r < s.store.heap.objects.size → t.store.heap.get r = s.store.heap.get r)
    (bindings : t.store.bindings = s.store.bindings) : Confined ctx region s region t where
  keeps := keeps
  spared r inside _ := objects r inside
  more _ member := member
  new _ member := .inl member
  encloses := ⟨encloses.values.same keeps.size objects, bindings ▸ encloses.bindings⟩

theorem refl (encloses : Encloses region s) : Confined ctx region s region s :=
  still encloses (.refl _) (fun _ _ => rfl) rfl

theorem trans (first : Confined ctx region s wider t) (second : Confined ctx wider t widest u) :
    Confined ctx region s widest u where
  keeps := first.keeps.trans second.keeps
  spared r inside outside := by
    have later : ¬ wider r := fun member => by
      rcases first.new r member with old | ⟨fresh, _⟩
      · exact outside old
      · exact Nat.lt_irrefl _ (Nat.lt_of_lt_of_le inside fresh)
    exact (second.spared r (Nat.lt_of_lt_of_le inside first.keeps.size) later).trans
      (first.spared r inside outside)
  more r member := second.more r (first.more r member)
  new r member := by
    rcases second.new r member with before | ⟨fresh, there, owned⟩
    · rcases first.new r before with old | ⟨fresh, there, owned⟩
      · exact .inl old
      · exact .inr ⟨fresh, Nat.lt_of_lt_of_le there second.keeps.size,
          second.keeps.owned there owned⟩
    · exact .inr ⟨Nat.le_trans first.keeps.size fresh, there, owned⟩
  encloses := second.encloses

theorem alloc (encloses : Encloses region s) {o : Object} (owned : o.OwnedBy ctx.domain)
    (held : ∀ v ∈ o.items, v.In region) :
    Confined ctx region s (fun r => region r ∨ r = (s.store.heap.alloc o).1)
      (s.withHeap (s.store.heap.alloc o).2) where
  keeps := Heap.keepsAlloc _ o
  spared _ inside _ := Heap.getAlloc inside
  more _ := .inl
  new r member := by
    refine member.imp_right ?_
    rintro rfl
    refine ⟨Nat.le_refl _, ?_, (congrArg (Object.OwnedBy ctx.domain) (Heap.getAllocNew _ o)).mpr owned⟩
    simp [State.withHeap, Heap.alloc]
  encloses := ⟨encloses.values.alloc held, fun p member => (encloses.bindings p member).wider fun _ => .inl⟩

theorem extend (encloses : Encloses region s) {r : Ref} {values : List Value}
    {location : Option Location} {h : Heap} (target : region r) (held : ∀ v ∈ values, v.In region)
    (allowed : s.store.heap.extend r values location = .ok h) :
    Confined ctx region s region (s.withHeap h) where
  keeps := (Heap.Change.extended allowed).keeps
  spared q _ outside := by
    obtain ⟨_, rfl⟩ := Heap.extendAllowed allowed
    have other : r ≠ q := fun same => outside (same ▸ target)
    exact (Heap.getSetItems _ _ _ _).trans (if_neg other)
  more _ member := member
  new _ member := .inl member
  encloses := by
    obtain ⟨_, rfl⟩ := Heap.extendAllowed allowed
    refine ⟨encloses.values.setItems r fun v member => ?_, encloses.bindings⟩
    rcases List.mem_append.mp member with old | added
    · exact encloses.values.closed r target v old
    · exact held v added

theorem bind (encloses : Encloses region s) (name : Text) {v : Value} (inside : v.In region) :
    Confined ctx region s region (s.binding name v) where
  keeps := .refl _
  spared _ _ _ := rfl
  more _ member := member
  new _ member := .inl member
  encloses := by
    refine ⟨encloses.values, fun p member => ?_⟩
    rcases Bindings.memSet member with rfl | before
    · exact inside
    · exact encloses.bindings p before

end Confined

def Confining (ctx : Context σ) {α : Type} (region : Ref → Prop) (s : State σ) (m : Eval σ α)
    (p : α → (Ref → Prop) → Prop) : Prop :=
  Encloses region s → Ensures s m
    (fun a t => ∃ wider, Confined ctx region s wider t ∧ p a wider)
    fun _ t => ∃ wider, Confined ctx region s wider t

namespace Confining
open Eval

variable {α β : Type} {region : Ref → Prop} {s : State σ} {p : α → (Ref → Prop) → Prop}

theorem pure {a : α} (holds : p a region) : Confining ctx region s (pure a) p := fun encloses =>
  ensuresPure ⟨region, .refl encloses, holds⟩

theorem throw (stop : Stop) : Confining ctx region s (throw stop : Eval σ α) p := fun encloses =>
  ensuresThrow ⟨region, .refl encloses⟩

theorem bind {m : Eval σ α} {f : α → Eval σ β} {q : β → (Ref → Prop) → Prop}
    (first : Confining ctx region s m p)
    (second : ∀ a t wider, (∀ r, region r → wider r) → p a wider → Confining ctx wider t (f a) q) :
    Confining ctx region s (m >>= f) q := by
  intro encloses
  refine (first encloses).bind fun a t ⟨wider, confined, holds⟩ => ?_
  exact (second a t wider confined.more holds confined.encloses).weaken
    (fun _ _ ⟨widest, more, rest⟩ => ⟨widest, confined.trans more, rest⟩)
    fun _ _ ⟨widest, more⟩ => ⟨widest, confined.trans more⟩

theorem store {f : Store σ → Eval σ α}
    (rest : Encloses region s → Confining ctx region s (f s.store) p) :
    Confining ctx region s (Eval.store >>= f) p := fun encloses => ensuresStore (rest encloses encloses)

theorem heap {f : Heap → Eval σ α}
    (rest : Encloses region s → Confining ctx region s (f s.store.heap) p) :
    Confining ctx region s (Eval.heap >>= f) p := fun encloses => ensuresHeap (rest encloses encloses)

theorem ofFault {result : Except Fault α} (holds : ∀ a, result = .ok a → p a region) :
    Confining ctx region s (ofFault result) p := fun encloses =>
  ensuresFault (fun a done => ⟨region, .refl encloses, holds a done⟩) fun _ _ => ⟨region, .refl encloses⟩

theorem checkAborted (location : Option Location) :
    Confining ctx region s (checkAborted ctx location) fun _ _ => True := fun encloses =>
  ensuresChecked (fun _ => ⟨region, .refl encloses, trivial⟩) fun _ => ⟨region, .refl encloses⟩

theorem function {name : Text} {location : Option Location} {f : Callable σ → Eval σ α}
    (rest : ∀ g, ctx.functions.get? name = some g → Confining ctx region s (f g) p) :
    Confining ctx region s (Eval.function ctx name location >>= f) p := fun encloses =>
  ensuresFunction (fun g there => rest g there encloses) fun _ => ⟨region, .refl encloses⟩

theorem alloc {o : Object} (owned : o.OwnedBy ctx.domain) (held : ∀ v ∈ o.items, v.In region) :
    Confining ctx region s (alloc o) fun v region => v.In region := fun encloses =>
  ensuresAlloc ⟨_, .alloc encloses owned held, .inr rfl⟩

theorem emit (unaided : ctx.Unaided) (kind : EventKind) (e : Event) :
    Confining ctx region s (emit ctx kind e) fun _ _ => True := by
  intro encloses
  have heard {listener} (there : ctx.listener kind = some listener) :
      Confined ctx region s region { s.noting e with store := (listener e s.store).2 } :=
    have leaves := unaided.listener kind listener there
    .still encloses (leaves.keeps e s.store) (leaves.objects e s.store) (leaves.bindings e s.store)
  exact ensuresEmit (fun _ => ⟨region, .refl encloses, trivial⟩)
    (fun _ there _ => ⟨region, heard there, trivial⟩) fun _ _ there _ => ⟨region, heard there⟩

theorem log (unaided : ctx.Unaided) (v : Value) : Confining ctx region s (log ctx v) fun _ _ => True := by
  unfold Eval.log
  split
  · refine heap fun _ encloses => ensuresRecord ⟨region, ?_, trivial⟩
    exact .still encloses (.refl _) (fun _ _ => rfl) rfl
  · exact emit unaided _ _

theorem logAll (unaided : ctx.Unaided) (vs : List Value) :
    Confining ctx region s (logAll ctx vs) fun _ _ => True := by
  induction vs generalizing region s with
  | nil => exact pure trivial
  | cons v vs ih => exact (log unaided v).bind fun _ _ _ _ _ => ih

end Confining

namespace Eval

variable {h : Heap} {args : List Value} {location : Option Location} {region : Ref → Prop}

theorem elementIn (enclosed : h.Sealed region) {object index v : Value} (inside : object.In region)
    (found : elementAt h object index location = .ok v) : v.In region := by
  unfold elementAt at found
  split at found
  · cases found
  · rename_i r
    split at found
    · split at found
      · split at found
        · rename_i there
          cases found
          unfold Heap.element? at there
          split at there
          · exact enclosed.closed r inside v (List.mem_of_getElem? there)
          · cases there
        · cases found
      · cases found
    · cases found

theorem firstIn (held : ∀ v ∈ args, v.In region) : (first args).In region := by
  cases args with
  | nil => trivial
  | cons v rest => exact held v List.mem_cons_self

theorem secondIn (held : ∀ v ∈ args, v.In region) : (second args).In region := by
  match args with
  | [] => trivial
  | [_] => trivial
  | _ :: v :: _ => exact held v (List.mem_cons_of_mem _ List.mem_cons_self)

theorem lengthOfScalar {v : Value} (done : lengthOf h args location = .ok v) : v.In region := by
  obtain ⟨_, _, done⟩ := okOfBind done
  split at done <;> cases done
  trivial

theorem convertedElementsIn {b : Builtin} {vs : List Value} (enclosed : h.Sealed region)
    (held : ∀ v ∈ args, v.In region) (done : convertedElements h b args location = .ok vs) :
    ∀ v ∈ vs, v.In region := by
  unfold convertedElements at done
  split at done
  · cases done
    intro v none
    cases none
  · obtain ⟨_, _, done⟩ := okOfBind done
    exact enclosed.elements (firstIn held) (elementsOfElements done)

end Eval

namespace Confining
open Eval

variable {region : Ref → Prop} {s : State σ}

theorem changing {f : Heap → Except Fault Heap} {args : List Value}
    (held : ∀ v ∈ args, v.In region)
    (extended : Encloses region s → ∀ h', f s.store.heap = .ok h' → ∃ r values location,
      first args = .object r ∧ (∀ v ∈ values, v.In region) ∧
        s.store.heap.extend r values location = .ok h') :
    Confining ctx region s
      (do setHeap (← Eval.ofFault (f (← Eval.heap))); return Value.none : Eval σ Value)
      fun v region => v.In region := by
  intro encloses
  refine ensuresHeap (Ensures.bind (ensuresFault
    (p := fun h t => Confined ctx region s region (t.withHeap h)) (fun h done => ?_)
    fun _ _ => ⟨region, .refl encloses⟩)
    fun h t confined => ensuresSetHeap (ensuresPure ⟨region, confined, trivial⟩))
  obtain ⟨r, values, location, target, added, allowed⟩ := extended encloses h done
  have there : region r := by
    have inside := firstIn held
    rwa [target] at inside
  exact .extend encloses there added allowed

theorem applyBuiltin (unaided : ctx.Unaided) (b : Builtin) {args : List Value}
    (held : ∀ v ∈ args, v.In region) (location : Option Location) :
    Confining ctx region s (applyBuiltin ctx b args location) fun v region => v.In region := by
  cases b with
  | len => exact heap fun _ => ofFault fun v done => lengthOfScalar done
  | append =>
    refine changing held fun _ h' done => ?_
    obtain ⟨r, target, allowed⟩ := appendToExtends done
    exact ⟨r, _, location, target, fun v member => List.mem_singleton.mp member ▸ secondIn held, allowed⟩
  | extend =>
    refine changing held fun encloses h' done => ?_
    obtain ⟨r, values, target, found, allowed⟩ := extendWithExtends done
    exact ⟨r, values, location, target, encloses.values.elements (secondIn held) found, allowed⟩
  | list =>
    refine heap fun encloses => (ofFault (p := fun vs region => ∀ v ∈ vs, v.In region) fun vs done =>
      convertedElementsIn encloses.values held done).bind fun vs t wider _ inside => ?_
    exact alloc rfl inside
  | tuple =>
    refine heap fun encloses => (ofFault (p := fun vs region => ∀ v ∈ vs, v.In region) fun vs done =>
      convertedElementsIn encloses.values held done).bind fun vs t wider more inside => heap fun _ => ?_
    split
    · rename_i r there
      exact pure ((Heap.tupleObject there).1 ▸ (firstIn held).wider more)
    · exact alloc trivial inside
  | print => exact (logAll unaided args).bind fun _ _ _ _ _ => pure trivial

theorem invoke (unaided : ctx.Unaided) {f : Callable σ} {name : Text}
    (there : ctx.functions.get? name = some f) {args : List Value}
    (held : ∀ v ∈ args, v.In region) (location : Option Location) :
    Confining ctx region s (invoke ctx f name args location) fun v region => v.In region := by
  refine (emit unaided _ _).bind fun _ t wider more _ => ?_
  have inside (v : Value) (member : v ∈ args) := (held v member).wider more
  cases f with
  | host f => exact absurd there (unaided.noHost name f)
  | builtin b =>
    refine (applyBuiltin unaided b inside location).bind fun v u widest _ here => ?_
    exact (emit unaided _ _).bind fun _ _ _ more' _ => pure (here.wider more')

theorem lookup (name : Text) (location : Option Location) :
    Confining ctx region s (lookup name location : Eval σ Value) fun v region => v.In region := by
  refine store fun encloses => ?_
  split
  · rename_i v there
    exact pure (encloses.bindings _ (Bindings.memGet there))
  · exact throw _

theorem applyUnary (op : UnaryOp) (v : Value) (location : Option Location) :
    Confining ctx region s (applyUnary op v location : Eval σ Value) fun v region => v.In region := by
  cases op with
  | not => exact heap fun _ => pure trivial
  | negate =>
    simp only [Eval.applyUnary]
    split
    · exact pure trivial
    · exact heap fun _ => throw _

theorem allocSequence (kind : SequenceKind) {items : List Value} (held : ∀ v ∈ items, v.In region) :
    Confining ctx region s (allocSequence ctx kind items) fun v region => v.In region := by
  cases kind with
  | list => exact alloc rfl held
  | tuple => exact alloc trivial held

mutual

theorem expr (unaided : ctx.Unaided) (e : Expr) (region : Ref → Prop) (s : State σ) :
    Confining ctx region s (Eval.expr ctx e) fun v region => v.In region := by
  match e with
  | .literal v span => exact (checkAborted _).bind fun _ _ _ _ _ => pure trivial
  | .sequence kind elements span =>
    refine (checkAborted _).bind fun _ t wider _ _ => ?_
    exact (slots unaided _ 0 elements wider t).bind fun items u widest _ held => allocSequence kind held
  | .name n span => exact (checkAborted _).bind fun _ _ _ _ _ => lookup _ _
  | .call callee args span =>
    refine (checkAborted _).bind fun _ t wider _ _ => function fun f there => ?_
    exact (exprs unaided args wider t).bind fun vs u widest _ held => invoke unaided there held _
  | .subscript object index span =>
    refine (checkAborted _).bind fun _ t wider _ _ => ?_
    refine (expr unaided object wider t).bind fun o u region' _ inside => ?_
    refine (expr unaided index region' u).bind fun i w region'' more _ => ?_
    exact heap fun encloses => ofFault fun v found => elementIn encloses.values (inside.wider more) found
  | .unary op operand span =>
    refine (checkAborted _).bind fun _ t wider _ _ => ?_
    exact (expr unaided operand wider t).bind fun v u widest _ _ => applyUnary _ _ _

theorem slots (unaided : ctx.Unaided) (literal : Expr) (index : Nat) (elements : List (Option Expr))
    (region : Ref → Prop) (s : State σ) :
    Confining ctx region s (Eval.slots ctx literal index elements)
      fun vs region => ∀ v ∈ vs, v.In region := by
  match elements with
  | [] => exact pure fun v none => by cases none
  | none :: rest => exact (checkAborted _).bind fun _ _ _ _ _ => throw _
  | some e :: rest =>
    refine (checkAborted _).bind fun _ t wider _ _ => ?_
    refine (expr unaided e wider t).bind fun v u region' _ here => ?_
    refine (slots unaided literal (index + 1) rest region' u).bind fun vs w region'' more others => ?_
    exact pure (List.forall_mem_cons.mpr ⟨here.wider more, others⟩)

theorem exprs (unaided : ctx.Unaided) (es : List Expr) (region : Ref → Prop) (s : State σ) :
    Confining ctx region s (Eval.exprs ctx es) fun vs region => ∀ v ∈ vs, v.In region := by
  match es with
  | [] => exact pure fun v none => by cases none
  | e :: rest =>
    refine (expr unaided e region s).bind fun v t region' _ here => ?_
    refine (exprs unaided rest region' t).bind fun vs u region'' more others => ?_
    exact pure (List.forall_mem_cons.mpr ⟨here.wider more, others⟩)

end

theorem statement (unaided : ctx.Unaided) (statement : Statement) (region : Ref → Prop) (s : State σ) :
    Confining ctx region s (Eval.statement ctx statement) fun v region => v.In region := by
  refine (checkAborted _).bind fun _ t wider _ _ => ?_
  cases statement with
  | expression e span => exact expr unaided e wider t
  | assignment target value span =>
    refine (expr unaided value wider t).bind fun v u widest _ inside encloses => ?_
    exact (⟨widest, .bind encloses target inside, inside⟩ :
      ∃ wider, Confined ctx widest u wider (u.binding target v) ∧ v.In wider)

end Confining

def Stays (ctx : Context σ) (s t : State σ) : Prop :=
  ∀ region, Encloses region s → ∃ wider, Confined ctx region s wider t

theorem Confining.stays {α : Type} {s : State σ} {m : Eval σ α} {p : α → (Ref → Prop) → Prop}
    (confining : ∀ region, Confining ctx region s m p) : Stays ctx s (runFrom s m).2 := by
  intro region encloses
  unfold runFrom
  rcases (confining region encloses).outcome with ⟨a, t, run, wider, confined, _⟩ | ⟨_, t, run, stopped⟩
  · rw [run]
    exact ⟨wider, confined⟩
  · rw [run]
    exact stopped

theorem staysCarried (unaided : ctx.Unaided) : Carried ctx (Stays ctx) where
  refl _ region encloses := ⟨region, .refl encloses⟩
  trans first second region encloses := by
    obtain ⟨wider, confined⟩ := first region encloses
    obtain ⟨widest, confined'⟩ := second wider confined.encloses
    exact ⟨widest, confined.trans confined'⟩
  emit kind e _ := Confining.stays fun _ => .emit unaided kind e
  statement statement s := Confining.stays fun region => .statement unaided statement region s
  freeze s region encloses :=
    ⟨region, .still encloses (Heap.Change.froze _ _).keeps (fun _ _ => rfl) rfl⟩

/- Of the objects that were there, a run changes only those that its variables lead to. Whatever it has
come to, a tuple keeps its elements and a list its owner from there to the end; and each literal and
each call that makes a list has made an object that was not there when its parts were evaluated. -/
theorem reachesOnlyGiven (unaided : ctx.Unaided) (script : Script) {start : State σ}
    (held : ∀ r, start.Reaches r → start.store.heap.holds r = true) :
    ∃ outcome last, Run.execute ctx script start = (outcome, last) ∧
      (∀ r, start.store.heap.holds r = true → ¬ start.Reaches r →
        last.store.heap.get r = start.store.heap.get r) ∧
      Advances ctx start last ∧
      (∀ s, Advances ctx s last →
        (∀ r items, s.store.heap.holds r = true → s.store.heap.get r = .tuple items →
          last.store.heap.get r = .tuple items) ∧
        ∀ r owner items, s.store.heap.get r = .list owner items →
          ∃ items', last.store.heap.get r = .list owner items') ∧
      ∀ i d s, RunBegins ctx script start i d s →
        Advances ctx start s ∧ Advances ctx (runFrom s (Eval.expr ctx d)).2 last ∧
        ∀ kind parts v t, Creates ctx kind d parts → runFrom s (Eval.expr ctx d) = (.ok v, t) →
          NewSequence ctx kind (parts.after ctx s) v t := by
  have keeping := unaided.keepsHeap
  refine ⟨_, _, rfl, fun r inside outside => ?_, (advancesCarried ctx).execute script start,
    fun s advances => ?_, fun i d s begins => ⟨begins.advances, begins.goesOn, ?_⟩⟩
  · obtain ⟨wider, confined⟩ :=
      (staysCarried unaided).execute script start start.Reaches (State.reachesEncloses held)
    exact confined.spared r (of_decide_eq_true inside) outside
  · have keeps := advances.keeps keeping
    refine ⟨fun r items inside there => keeps.tuples r items (of_decide_eq_true inside) there,
      fun r owner items there => ?_⟩
    obtain ⟨items', there', _⟩ := keeps.lists r owner items there
    exact ⟨items', there'⟩
  · exact fun kind parts v t creates run => (Eval.createsNew keeping creates s).onOk run

def looped : State Unit :=
  ⟨⟨⟨#[.list 1 [.object 0], .list 2 [.object 0]], 4, []⟩, [(text "x", .object 0)], false, ()⟩, []⟩

def elsewhere : Context Unit := .plain 3

theorem elsewhereUnaided : elsewhere.Unaided where
  noHost name f there := by
    obtain ⟨b, same⟩ := Context.builtinFound there
    cases same
  listener kind listener there := by cases there

def appendsNew : Script :=
  ⟨[.expression (.call (text "append") [.name (text "x") .synthetic,
    .sequence .list [some (.literal .none .synthetic)] .synthetic] .synthetic) .synthetic], .synthetic⟩

theorem loopedReaches {r : Ref} (reached : looped.Reaches r) : r = 0 := by
  obtain ⟨p, member, q, same, path⟩ := reached
  cases List.mem_singleton.mp member
  cases same
  induction path with
  | refl => rfl
  | tail _ edge ih =>
    subst ih
    cases List.mem_singleton.mp edge
    rfl

theorem appendsInside :
    ∃ outcome last, Run.execute elsewhere appendsNew looped = (outcome, last) ∧
      last.store.heap.get 0 = .list 1 [.object 0, .object 2] ∧
      last.store.heap.get 1 = .list 2 [.object 0] ∧
      ∃ kind d parts s t, Creates elsewhere kind d parts ∧
        RunBegins elsewhere appendsNew looped 0 d s ∧
        NewSequence elsewhere kind (parts.after elsewhere s) (.object 2) t := by
  have held (r : Ref) (reached : looped.Reaches r) : looped.store.heap.holds r = true := by
    rw [loopedReaches reached]
    rfl
  obtain ⟨outcome, last, run, spared, _, stays, nodes⟩ :=
    reachesOnlyGiven elsewhereUnaided appendsNew held
  have other := spared 1 rfl fun reached => absurd (loopedReaches reached) (by decide)
  have runs : ¬ elsewhere.Aborted looped := by
    simp [Context.Aborted, elsewhere, Context.plain]
  have begins : RunBegins elsewhere appendsNew looped 0
      (.sequence .list [some (.literal .none .synthetic)] .synthetic) looped :=
    ⟨_, looped, ⟨.ofScript appendsNew, looped, [], .first, rfl, rfl, rfl, runs, rfl, runs⟩,
      .argument runs rfl (.laterArg rfl (.firstArg (.here _ _)))⟩
  have appended : (Run.execute elsewhere appendsNew looped).2.store.heap.get 0 =
      .list 1 [.object 0, .object 2] := rfl
  rw [run] at appended
  exact ⟨outcome, last, run, appended, other, _, _, _, looped, _, .literal _ _ _, begins,
    (nodes 0 _ looped begins).2.2 _ _ _ _ (.literal _ _ _) rfl⟩

end SeqScript
