import Mathlib.Logic.Function.Basic
import SeqScript.Proofs.Value.Change

/-! Sequences as mathematics has them, and what the methods of sequences do to them. Nothing in the
specification looks into a heap: an index names a position by its whole number, a position is a
place where the members are split in two, and a change gives one object other members. The heap
does exactly this, whatever its objects refer to. -/
namespace SeqScript

namespace Number

def Denotes (x : Number) (i : Int) : Prop :=
  ∃ negative m, x = .finite negative m ∧
    (if negative then -(m.units : Int) else m.units) = i * unitsPerOne

def Names (x : Number) (length k : Nat) : Prop :=
  ∃ i : Int, x.Denotes i ∧ -length ≤ i ∧ i < length ∧ (k : Int) = if i < 0 then length + i else i

theorem unitsPerOnePos : 0 < unitsPerOne := Nat.two_pow_pos unitExponent

theorem quotientIff (n : Nat) (i : Int) :
    unitsPerOne ∣ n ∧ (n / unitsPerOne : Int) = i ↔ (n : Int) = i * unitsPerOne := by
  have one : (unitsPerOne : Int) ≠ 0 := Int.ne_of_gt (Int.natCast_pos.mpr unitsPerOnePos)
  rw [← Int.natCast_dvd_natCast]
  constructor
  · rintro ⟨divides, rfl⟩
    exact (Int.ediv_mul_cancel divides).symm
  · intro whole
    rw [whole]
    exact ⟨Int.dvd_mul_left i _, Int.mul_ediv_cancel i one⟩

theorem denotesIff {x : Number} {i : Int} : x.Denotes i ↔ x.toInt? = some i := by
  have noOther (other : ∀ negative m, x ≠ .finite negative m) : ¬ x.Denotes i :=
    fun ⟨negative, m, same, _⟩ => other negative m same
  cases x with
  | nan => exact iff_of_false (noOther fun _ _ same => by cases same) fun same => by cases same
  | infinite s => exact iff_of_false (noOther fun _ _ same => by cases same) fun same => by cases same
  | finite negative m =>
    have named : (finite negative m).Denotes i ↔
        (if negative then -(m.units : Int) else m.units) = i * unitsPerOne := by
      constructor
      · rintro ⟨_, _, same, whole⟩
        cases same
        exact whole
      · exact fun whole => ⟨negative, m, rfl, whole⟩
    rw [named, toInt?, Option.ite_none_right_eq_some, Option.some.injEq]
    cases negative with
    | false => exact (quotientIff m.units i).symm
    | true =>
      have turned : -(m.units : Int) = i * unitsPerOne ↔ (m.units : Int) = -i * unitsPerOne := by
        rw [Int.neg_mul]
        omega
      simp only [if_true, turned, ← quotientIff]
      exact and_congr_right fun _ => by omega

theorem namesIff {x : Number} {length k : Nat} :
    x.Names length k ↔ Heap.position x length = some k := by
  have placed (i : Int) : Heap.place i length = some k ↔
      -length ≤ i ∧ i < length ∧ (k : Int) = if i < 0 then length + i else i := by
    unfold Heap.place
    split
    · simp only [Option.some.injEq]
      omega
    · split
      · simp only [Option.some.injEq]
        omega
      · simp only [reduceCtorEq, false_iff]
        omega
  simp only [Names, Heap.position, Option.bind_eq_some_iff, denotesIff, placed]

theorem Names.splits {x : Number} {k : Nat} {vs : List Value} (named : x.Names vs.length k) :
    ∃ before v after, vs = before ++ v :: after ∧ x.Names vs.length before.length := by
  have inside : k < vs.length := Heap.positionLt (namesIff.mp named)
  have front : (vs.take k).length = k := List.length_take_of_le (Nat.le_of_lt inside)
  have whole : vs = vs.take k ++ vs[k] :: vs.drop (k + 1) := by
    rw [List.getElem_cons_drop, List.take_append_drop]
  exact ⟨_, _, _, whole, front.symm ▸ named⟩

end Number

inductive Supply where
  | sequence (r : Ref)
  | string (t : Text)
  | values (vs : List Value)

def Value.supply? : Value → Option Supply
  | .object r => some (.sequence r)
  | .scalar (.string t) => some (.string t)
  | .scalar _ => Option.none

inductive Method where
  | get (r : Ref) (index : Number)
  | append (r : Ref) (value : Value)
  | extend (r : Ref) (supply : Supply)
  | set (r : Ref) (index : Number) (value : Value)
  | pop (r : Ref) (index : Option Number)

def Method.target? : Method → Option Ref
  | .get _ _ => none
  | .append r _ | .extend r _ | .set r _ _ | .pop r _ => some r

def Heap.supplied (h : Heap) : Supply → List Value
  | .sequence r => h.items r
  | .string t => t.codePoints.map Value.string
  | .values vs => vs

theorem Heap.elementsSupplied (h : Heap) (v : Value) :
    h.elements? v = v.supply?.map h.supplied := by
  cases v with
  | object r => rfl
  | scalar c => cases c <;> rfl

def Method.call (h : Heap) (location : Option Location) :
    Method → Except Fault (Option Value × Heap)
  | .get r index => .ok (h.element? r index, h)
  | .append r v => (h.append r v location).map (none, ·)
  | .extend r supply => (h.extend r (h.supplied supply) location).map (none, ·)
  | .set r index v => (h.set r index v location).map (none, ·)
  | .pop r index => (h.pop r index location).map fun popped => (some popped.1, popped.2)

structure Sequences where
  object : Ref → Object
  frozen : Domain → Bool

def Heap.sequences (h : Heap) : Sequences := ⟨h.get, h.isFrozen⟩

namespace Sequences

def items (w : Sequences) (r : Ref) : List Value := (w.object r).items

def supplied (w : Sequences) : Supply → List Value
  | .sequence r => w.items r
  | .string t => t.codePoints.map Value.string
  | .values vs => vs

def typeName (w : Sequences) : Value → Text
  | .scalar s => s.typeName
  | .object r => (w.object r).kind.name

def put (w : Sequences) (r : Ref) (o : Object) : Sequences :=
  { w with object := Function.update w.object r o }

def freeze (w : Sequences) (d : Domain) : Sequences :=
  { w with frozen := Function.update w.frozen d true }

end Sequences

namespace Method

/-- A method that is carried out: what it answers, and the sequences behind it. What extends a list
is what it supplied in front of the call, also when that is the list itself. -/
inductive Acts (w : Sequences) : Method → Option Value → Sequences → Prop where
  | got {r index before v after} (members : w.items r = before ++ v :: after)
      (named : index.Names (w.items r).length before.length) : Acts w (.get r index) (some v) w
  | absent {r index} (unnamed : ∀ k, ¬ index.Names (w.items r).length k) :
      Acts w (.get r index) none w
  | appended {r v owner items} (list : w.object r = .list owner items)
      (free : w.frozen owner = false) :
      Acts w (.append r v) none (w.put r (.list owner (items ++ [v])))
  | extended {r supply owner items} (list : w.object r = .list owner items)
      (free : w.frozen owner = false) :
      Acts w (.extend r supply) none (w.put r (.list owner (items ++ w.supplied supply)))
  | set {r index v owner before old after} (list : w.object r = .list owner (before ++ old :: after))
      (free : w.frozen owner = false)
      (named : index.Names (before ++ old :: after).length before.length) :
      Acts w (.set r index v) none (w.put r (.list owner (before ++ v :: after)))
  | popped {r index owner before v after} (list : w.object r = .list owner (before ++ v :: after))
      (free : w.frozen owner = false)
      (named : index.Names (before ++ v :: after).length before.length) :
      Acts w (.pop r (some index)) (some v) (w.put r (.list owner (before ++ after)))
  | poppedLast {r owner before v} (list : w.object r = .list owner (before ++ [v]))
      (free : w.frozen owner = false) :
      Acts w (.pop r none) (some v) (w.put r (.list owner before))

inductive Refused (w : Sequences) : Method → Cause → Prop where
  | frozen {m : Method} {r owner items} (changes : m.target? = some r)
      (list : w.object r = .list owner items) (frozen : w.frozen owner = true) :
      Refused w m .frozenList
  | unset {r index v owner items} (list : w.object r = .list owner items)
      (free : w.frozen owner = false) (unnamed : ∀ k, ¬ index.Names items.length k) :
      Refused w (.set r index v) (.indexOutOfRange index .list items.length)
  | unpopped {r index owner items} (list : w.object r = .list owner items)
      (free : w.frozen owner = false) (unnamed : ∀ k, ¬ index.Names items.length k) :
      Refused w (.pop r (some index)) (.indexOutOfRange index .list items.length)
  | exhausted {r owner} (list : w.object r = .list owner []) (free : w.frozen owner = false) :
      Refused w (.pop r none) (.indexOutOfRange (.ofInt (-1)) .list 0)

variable {w : Sequences}

theorem actsOrRefused (m : Method) (lists : ∀ r, m.target? = some r → (w.object r).kind = .list) :
    (∃ answer w', m.Acts w answer w') ∨ ∃ cause, m.Refused w cause := by
  have target {r : Ref} (changes : m.target? = some r) :
      (∃ cause, m.Refused w cause) ∨
        ∃ owner items, w.object r = .list owner items ∧ w.frozen owner = false := by
    have kind := lists r changes
    cases there : w.object r with
    | tuple items => rw [there] at kind; cases kind
    | list owner items =>
      cases frozen : w.frozen owner with
      | true => exact .inl ⟨_, .frozen changes there frozen⟩
      | false => exact .inr ⟨owner, items, rfl, frozen⟩
  have position (index : Number) (vs : List Value) :
      (∀ k, ¬ index.Names vs.length k) ∨
        ∃ before v after, vs = before ++ v :: after ∧ index.Names vs.length before.length := by
    by_cases named : ∃ k, index.Names vs.length k
    · exact .inr named.choose_spec.splits
    · exact .inl (not_exists.mp named)
  cases m with
  | get r index =>
    rcases position index (w.items r) with unnamed | ⟨before, v, after, members, named⟩
    · exact .inl ⟨_, _, .absent unnamed⟩
    · exact .inl ⟨_, _, .got members named⟩
  | append r v =>
    rcases target rfl with refused | ⟨owner, items, there, free⟩
    · exact .inr refused
    · exact .inl ⟨_, _, .appended there free⟩
  | extend r supply =>
    rcases target rfl with refused | ⟨owner, items, there, free⟩
    · exact .inr refused
    · exact .inl ⟨_, _, .extended there free⟩
  | set r index v =>
    rcases target rfl with refused | ⟨owner, items, there, free⟩
    · exact .inr refused
    · rcases position index items with unnamed | ⟨before, old, after, rfl, named⟩
      · exact .inr ⟨_, .unset there free unnamed⟩
      · exact .inl ⟨_, _, .set there free named⟩
  | pop r index =>
    rcases target rfl with refused | ⟨owner, items, there, free⟩
    · exact .inr refused
    · cases index with
      | none =>
        rcases items.eq_nil_or_concat with rfl | ⟨before, v, rfl⟩
        · exact .inr ⟨_, .exhausted there free⟩
        · rw [List.concat_eq_append] at there
          exact .inl ⟨_, _, .poppedLast there free⟩
      | some index =>
        rcases position index items with unnamed | ⟨before, v, after, rfl, named⟩
        · exact .inr ⟨_, .unpopped there free unnamed⟩
        · exact .inl ⟨_, _, .popped there free named⟩

theorem putKind {r : Ref} {owner : Domain} {items : List Value}
    (list : w.object r = .list owner items) (items' : List Value) (t : Ref) :
    ((w.put r (.list owner items')).object t).kind = (w.object t).kind := by
  by_cases same : t = r
  · subst same
    simp only [Sequences.put, Function.update_self, list]
    rfl
  · simp only [Sequences.put, Function.update_of_ne same]

theorem Acts.kind {m : Method} {answer : Option Value} {w' : Sequences} (acts : m.Acts w answer w')
    (t : Ref) : (w'.object t).kind = (w.object t).kind := by
  cases acts with
  | got | absent => rfl
  | appended list | extended list | set list | popped list | poppedLast list =>
    exact putKind list _ t

theorem Refused.id {m : Method} {cause : Cause} (refused : m.Refused w cause) :
    cause.id = .frozenMutation ∨ cause.id = .indexOutOfRange := by
  cases refused with
  | frozen => exact .inl rfl
  | unset | unpopped | exhausted => exact .inr rfl

end Method

namespace Heap

variable {h : Heap} {r : Ref} {owner : Domain} {items : List Value} {location : Option Location}

theorem sequencesSetItems (list : h.get r = .list owner items) (items' : List Value) :
    (h.setItems r items').sequences = h.sequences.put r (.list owner items') := by
  have frozen : (h.setItems r items').isFrozen = h.isFrozen := by
    funext d
    simp [isFrozen]
  have objects : (h.setItems r items').get = Function.update h.get r (.list owner items') := by
    funext s
    rw [getSetItems, Function.update_apply]
    by_cases same : s = r
    · subst same
      simp [list]
    · simp [same, Ne.symm same]
  simp [sequences, Sequences.put, frozen, objects]

theorem sequencesFreeze (d : Domain) : (h.freeze d).sequences = h.sequences.freeze d := by
  have frozen : (h.freeze d).isFrozen = Function.update h.isFrozen d true := by
    funext e
    rw [Function.update_apply]
    by_cases same : e = d <;> simp [isFrozen, freeze, same]
  simp only [sequences, Sequences.freeze, frozen]
  rfl

theorem mutableFree (list : h.get r = .list owner items) (free : h.isFrozen owner = false) :
    h.mutable r location = .ok () := by
  simp [mutable, isFrozenList, list, free]

theorem mutableFrozen (list : h.get r = .list owner items) (frozen : h.isFrozen owner = true) :
    h.mutable r location = .error ⟨.frozenList, location⟩ := by
  simp [mutable, isFrozenList, list, frozen]

theorem itemsOf (list : h.get r = .list owner items) : h.items r = items := by
  rw [Heap.items, list]
  rfl

theorem unplaced {index : Number} {length : Nat} (unnamed : ∀ k, ¬ index.Names length k) :
    position index length = none :=
  Option.eq_none_iff_forall_ne_some.mpr fun k there => unnamed k (Number.namesIff.mpr there)

theorem extendFree (list : h.get r = .list owner items) (free : h.isFrozen owner = false)
    (values : List Value) : h.extend r values location = .ok (h.setItems r (items ++ values)) := by
  rw [extend, mutableFree list free, itemsOf list]
  rfl

theorem setPlaced (list : h.get r = .list owner items) (free : h.isFrozen owner = false)
    {index : Number} {k : Nat} (named : index.Names items.length k) (v : Value) :
    h.set r index v location = .ok (h.setItems r (items.set k v)) := by
  rw [set, mutableFree list free, length, itemsOf list, Number.namesIff.mp named]
  rfl

theorem setUnplaced (list : h.get r = .list owner items) (free : h.isFrozen owner = false)
    {index : Number} (unnamed : ∀ k, ¬ index.Names items.length k) (v : Value) :
    h.set r index v location =
      .error ⟨.indexOutOfRange index .list items.length, location⟩ := by
  rw [set, mutableFree list free, length, itemsOf list, unplaced unnamed]
  simp only [outOfRange, kind, length, itemsOf list, list]
  rfl

theorem popPlaced (list : h.get r = .list owner items) (free : h.isFrozen owner = false)
    {index : Option Number} {x : Number} (given : index.getD (.ofInt (-1)) = x) {k : Nat}
    (named : x.Names items.length k) :
    h.pop r index location = .ok (items.getD k .none, h.setItems r (items.eraseIdx k)) := by
  simp only [pop, mutableFree list free, length, itemsOf list, given, Number.namesIff.mp named]
  rfl

theorem popUnplaced (list : h.get r = .list owner items) (free : h.isFrozen owner = false)
    {index : Option Number} {x : Number} (given : index.getD (.ofInt (-1)) = x)
    (unnamed : ∀ k, ¬ x.Names items.length k) :
    h.pop r index location = .error ⟨.indexOutOfRange x .list items.length, location⟩ := by
  simp only [pop, mutableFree list free, length, itemsOf list, given, unplaced unnamed, outOfRange,
    kind, list]
  rfl

theorem changesFrozen {m : Method} (changes : m.target? = some r)
    (list : h.get r = .list owner items) (frozen : h.isFrozen owner = true) :
    m.call h location = .error ⟨.frozenList, location⟩ := by
  have refused : h.mutable r location = .error ⟨.frozenList, location⟩ :=
    mutableFrozen list frozen
  cases m <;> cases changes <;> simp only [Method.call, append, extend, set, pop, refused] <;> rfl

theorem minusOneNames (before : List Value) (v : Value) :
    (Number.ofInt (-1)).Names (before ++ [v]).length before.length := by
  have denoted : (Number.ofInt (-1)).Denotes (-1) := Number.denotesIff.mpr (by decide +kernel)
  refine ⟨-1, denoted, ?_⟩
  rw [List.length_append, List.length_singleton]
  omega

end Heap

namespace Method

variable {h : Heap} (location : Option Location)

theorem Acts.called {m : Method} {answer : Option Value} {w : Sequences}
    (acts : m.Acts h.sequences answer w) :
    ∃ h', m.call h location = .ok (answer, h') ∧ h'.sequences = w := by
  cases acts with
  | @got r index before v after members named =>
    have items : h.items r = before ++ v :: after := members
    have found : h.element? r index = some v := by
      have placed : Heap.position index (h.length r) = some before.length := Number.namesIff.mp named
      rw [Heap.element?, placed, items]
      simp
    exact ⟨h, by rw [call, found], rfl⟩
  | @absent r index unnamed =>
    have placed : Heap.position index (h.length r) = none := Heap.unplaced unnamed
    exact ⟨h, by rw [call, Heap.element?, placed], rfl⟩
  | @appended r v owner items list free =>
    refine ⟨h.setItems r (items ++ [v]), ?_, Heap.sequencesSetItems list _⟩
    rw [call, Heap.append, Heap.extendFree list free]
    rfl
  | @extended r supply owner items list free =>
    refine ⟨h.setItems r (items ++ h.supplied supply), ?_, ?_⟩
    · rw [call, Heap.extendFree list free]
      rfl
    · rw [Heap.sequencesSetItems list]
      cases supply <;> rfl
  | @set r index v owner before old after list free named =>
    refine ⟨h.setItems r (before ++ v :: after), ?_, Heap.sequencesSetItems list _⟩
    rw [call, Heap.setPlaced list free named]
    simp [Except.map]
  | @popped r index owner before v after list free named =>
    refine ⟨h.setItems r (before ++ after), ?_, Heap.sequencesSetItems list _⟩
    rw [call, Heap.popPlaced list free (Option.getD_some ..) named]
    simp [Except.map, List.eraseIdx_append_of_length_le]
  | @poppedLast r owner before v list free =>
    refine ⟨h.setItems r before, ?_, Heap.sequencesSetItems list _⟩
    rw [call, Heap.popPlaced list free Option.getD_none (Heap.minusOneNames before v)]
    simp [Except.map, List.eraseIdx_append_of_length_le]

theorem Refused.called {m : Method} {cause : Cause} (refused : m.Refused h.sequences cause) :
    m.call h location = .error ⟨cause, location⟩ := by
  cases refused with
  | @frozen _ r owner items changes list frozen => exact Heap.changesFrozen changes list frozen
  | @unset r index v owner items list free unnamed =>
    rw [call, Heap.setUnplaced list free unnamed]
    rfl
  | @unpopped r index owner items list free unnamed =>
    rw [call, Heap.popUnplaced list free (Option.getD_some ..) unnamed]
    rfl
  | @exhausted r owner list free =>
    have unnamed (k : Nat) : ¬ (Number.ofInt (-1)).Names ([] : List Value).length k := by
      rintro ⟨i, _, low, high, _⟩
      simp at low high
      omega
    rw [call, Heap.popUnplaced list free Option.getD_none unnamed]
    rfl

end Method

end SeqScript
