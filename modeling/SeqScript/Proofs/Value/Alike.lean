import Mathlib.Data.List.Forall2
import Mathlib.Logic.Relation
import SeqScript.Value.Equality

/-! Structural equality decides whether two values look alike. What looks alike is told by the
relations that no look refutes; the search for a difference forgets a pair once it has left it, and
still finds every difference. -/
namespace SeqScript

def Value.NotNaN : Value → Prop
  | .scalar (.number x) => x.isNaN = false
  | _ => True

theorem Number.sameChain {x y z : Number} (first : x.same y = true) (second : y.same z = true) :
    x.same z = true := by
  simp only [same, Bool.or_eq_true, Bool.and_eq_true, Bool.not_eq_true', beq_iff_eq] at *
  rcases first with zeros | ⟨number, rfl⟩
  · rcases second with others | ⟨number, rfl⟩
    · exact .inl ⟨zeros.1, others.2⟩
    · exact .inl zeros
  · exact second

namespace Scalar

theorem sameSelf {s : Scalar} (number : (Value.scalar s).NotNaN) : s.same s = true := by
  cases s with
  | number x => exact Number.sameRefl number
  | none | bool | string => simp [same]

theorem sameFlip (s t : Scalar) : s.same t = t.same s := by
  cases s <;> cases t <;> simp [same, Number.sameSymm, Bool.beq_comm]

theorem sameChain {s t u : Scalar} (first : s.same t = true) (second : t.same u = true) :
    s.same u = true := by
  cases s <;> cases t <;> cases u <;> simp_all [same]
  exact Number.sameChain first second

end Scalar

namespace Heap
open List (Forall₂)

def NaNFree (h : Heap) : Prop := ∀ r, ∀ v ∈ h.items r, v.NotNaN

inductive Matches (h : Heap) (R : Value → Value → Prop) : Value → Value → Prop where
  | scalars {s t : Scalar} (same : s.same t = true) : Matches h R (.scalar s) (.scalar t)
  | sequences {r s : Ref} (kind : h.kind r = h.kind s) (elements : Forall₂ R (h.items r) (h.items s)) :
      Matches h R (.object r) (.object s)

def Bisimulation (h : Heap) (R : Value → Value → Prop) : Prop := ∀ a b, R a b → h.Matches R a b

mutual

/-- The search with its rules alone: what it answers about two values while some pairs of sequences
are being compared. -/
inductive Answers (h : Heap) : List (Ref × Ref) → Value → Value → Bool → Prop where
  | scalars {pairs} (s t : Scalar) : Answers h pairs (.scalar s) (.scalar t) (s.same t)
  | scalarFirst {pairs} (s : Scalar) (r : Ref) : Answers h pairs (.scalar s) (.object r) false
  | scalarSecond {pairs} (r : Ref) (s : Scalar) : Answers h pairs (.object r) (.scalar s) false
  | identical {pairs} (r : Ref) : Answers h pairs (.object r) (.object r) true
  | unlike {pairs r s} (other : r ≠ s) (differ : h.kind r ≠ h.kind s ∨ h.length r ≠ h.length s) :
      Answers h pairs (.object r) (.object s) false
  | again {pairs r s} (other : r ≠ s) (kind : h.kind r = h.kind s)
      (length : h.length r = h.length s) (met : (r, s) ∈ pairs) :
      Answers h pairs (.object r) (.object s) true
  | inside {pairs r s answer} (other : r ≠ s) (kind : h.kind r = h.kind s)
      (length : h.length r = h.length s) (fresh : (r, s) ∉ pairs)
      (elements : AnswersAll h ((r, s) :: pairs) (h.items r) (h.items s) answer) :
      Answers h pairs (.object r) (.object s) answer

inductive AnswersAll (h : Heap) : List (Ref × Ref) → List Value → List Value → Bool → Prop where
  | none {pairs} : AnswersAll h pairs [] [] true
  | differ {pairs a b as bs} (first : Answers h pairs a b false) :
      AnswersAll h pairs (a :: as) (b :: bs) false
  | agree {pairs a b as bs answer} (first : Answers h pairs a b true)
      (others : AnswersAll h pairs as bs answer) : AnswersAll h pairs (a :: as) (b :: bs) answer

end

theorem Matches.mono {h : Heap} {R S : Value → Value → Prop} (weaker : ∀ a b, R a b → S a b)
    {a b : Value} (look : h.Matches R a b) : h.Matches S a b := by
  cases look with
  | scalars same => exact .scalars same
  | sequences kind elements => exact .sequences kind (elements.imp weaker)

def AlikeFor (h : Heap) : Nat → Value → Value → Prop
  | 0, _, _ => True
  | n + 1, a, b => h.Matches (AlikeFor h n) a b

theorem alikeFewer {h : Heap} {n : Nat} {a b : Value} (alike : h.AlikeFor (n + 1) a b) :
    h.AlikeFor n a b := by
  induction n generalizing a b with
  | zero => trivial
  | succ n ih => exact Matches.mono (fun _ _ => ih) alike

theorem alikeSelf {h : Heap} (clean : h.NaNFree) (n : Nat) {a : Value} (number : a.NotNaN) :
    h.AlikeFor n a a := by
  induction n generalizing a with
  | zero => trivial
  | succ n ih =>
    cases a with
    | scalar s => exact .scalars (Scalar.sameSelf number)
    | object r =>
      exact .sequences rfl (List.forall₂_same.mpr fun v member => ih (clean r v member))

theorem alikeAlways {h : Heap} {as bs : List Value} (all : ∀ n, Forall₂ (h.AlikeFor n) as bs) :
    Forall₂ (fun a b => ∀ n, h.AlikeFor n a b) as bs := by
  induction as generalizing bs with
  | nil => cases all 0; exact .nil
  | cons a as ih =>
    cases bs with
    | nil => cases all 0
    | cons b bs =>
      exact .cons (fun n => (List.forall₂_cons.mp (all n)).1)
        (ih fun n => (List.forall₂_cons.mp (all n)).2)

theorem alikeBisimulation (h : Heap) : h.Bisimulation fun a b => ∀ n, h.AlikeFor n a b := by
  intro a b alike
  cases alike 1 with
  | scalars same => exact .scalars same
  | sequences kind =>
    refine .sequences kind (alikeAlways fun n => ?_)
    cases alike (n + 1) with
    | sequences _ elements => exact elements

theorem emptyOutside {h : Heap} {r s : Ref} (length : h.length r = h.length s)
    (unknown : ¬ (h.holds r = true ∧ h.holds s = true)) : h.items r = [] := by
  by_cases there : h.holds r = true
  · have outside : h.holds s ≠ true := fun other => unknown ⟨there, other⟩
    have none : h.length s = 0 := by rw [Heap.length, itemsOutside outside]; rfl
    exact List.length_eq_zero_iff.mp (length.trans none)
  · exact itemsOutside there

theorem equalInObjects (h : Heap) (pairs : List (Ref × Ref)) (r s : Ref) :
    h.equalIn pairs (.object r) (.object s) =
      if r = s then true
      else if h.kind r ≠ h.kind s ∨ h.length r ≠ h.length s then false
      else if (r, s) ∈ pairs then true
      else h.equalAll ((r, s) :: pairs) (h.items r) (h.items s) := by
  rw [equalIn]
  split
  · rfl
  split
  · rfl
  rename_i same
  split
  · rfl
  split
  · rfl
  · rename_i unknown
    have length : h.length r = h.length s := by
      apply Decidable.byContradiction
      exact fun differs => same (.inr differs)
    simp [emptyOutside length unknown, equalAll]

/- The search goes down to elements only with a pair that it had not met, and there are finitely
many pairs; so what it hands from the elements of a pair to the pair holds of all values. -/
theorem searchInduction {h : Heap} {P : List (Ref × Ref) → Value → Value → Prop}
    (scalar : ∀ pairs a b, (∀ r s, a = .object r → b ≠ .object s) → P pairs a b)
    (object : ∀ pairs r s, ((r, s) ∉ pairs → h.length r = h.length s →
      ∀ v w, (v, w) ∈ (h.items r).zip (h.items s) → P ((r, s) :: pairs) v w) →
      P pairs (.object r) (.object s)) (pairs : List (Ref × Ref)) (a b : Value) : P pairs a b := by
  generalize size : unseen h.pairs pairs = n
  induction n using Nat.strongRecOn generalizing pairs a b with
  | ind n ih =>
    cases a with
    | scalar s => exact scalar _ _ _ (by rintro r _ ⟨⟩)
    | object r =>
      cases b with
      | scalar t => exact scalar _ _ _ (by rintro _ _ _ ⟨⟩)
      | object s =>
        refine object pairs r s fun fresh length v w member => ?_
        by_cases known : h.holds r = true ∧ h.holds s = true
        · exact ih _ (size ▸ unseenLt (memPairs known) fresh) _ _ _ rfl
        · rw [emptyOutside length known] at member
          cases member

theorem answersAllAgree {h : Heap} {pairs : List (Ref × Ref)} {as bs : List Value}
    (found : h.equalAll pairs as bs = true) (length : as.length = bs.length) :
    Forall₂ (fun a b => h.equalIn pairs a b = true) as bs := by
  induction as generalizing bs with
  | nil =>
    cases bs with
    | nil => exact .nil
    | cons b bs => cases length
  | cons a as ih =>
    cases bs with
    | nil => cases length
    | cons b bs =>
      rw [equalAll] at found
      split at found
      · rename_i first
        exact .cons first (ih found (Nat.succ.inj length))
      · cases found

/- Pairs that are being compared may be taken to be alike for one look fewer than is left: by the
time one of them is met again, a look has been spent. -/
theorem equalAlike {h : Heap} (clean : h.NaNFree) (n : Nat) {pairs : List (Ref × Ref)} {a b : Value}
    (found : h.equalIn pairs a b = true)
    (comparing : ∀ p ∈ pairs, h.AlikeFor n (.object p.1) (.object p.2)) : h.AlikeFor n a b := by
  induction n generalizing pairs a b with
  | zero => trivial
  | succ n ih =>
    have fewer : ∀ p ∈ pairs, h.AlikeFor n (.object p.1) (.object p.2) :=
      fun p member => alikeFewer (comparing p member)
    have before := ih found fewer
    cases a with
    | scalar s =>
      cases b with
      | scalar t =>
        rw [equalIn] at found
        exact .scalars found
      | object r => simp [equalIn] at found
    | object r =>
      cases b with
      | scalar t => simp [equalIn] at found
      | object s =>
        rw [equalInObjects] at found
        split at found
        · rename_i same
          subst same
          exact alikeSelf clean (n + 1) (a := .object r) trivial
        split at found
        · cases found
        rename_i alike
        rw [not_or, not_not, not_not] at alike
        split at found
        · rename_i met
          exact comparing _ met
        · have inside := answersAllAgree found alike.2
          refine .sequences alike.1 (inside.imp fun v w equal => ih equal ?_)
          exact List.forall_mem_cons.mpr ⟨before, fewer⟩

theorem equalAllOf {h : Heap} {pairs : List (Ref × Ref)} {as bs : List Value}
    (equal : Forall₂ (fun a b => h.equalIn pairs a b = true) as bs) :
    h.equalAll pairs as bs = true := by
  induction equal with
  | nil => simp [equalAll]
  | cons first _ ih => rw [equalAll, if_pos first, ih]

theorem bisimilarEqual {h : Heap} {R : Value → Value → Prop} (relation : h.Bisimulation R)
    (pairs : List (Ref × Ref)) (a b : Value) (related : R a b) : h.equalIn pairs a b = true := by
  induction pairs, a, b using searchInduction (h := h) with
  | scalar pairs a b mixed =>
    cases relation a b related with
    | scalars same => rwa [equalIn]
    | sequences => exact absurd rfl (mixed _ _ rfl)
  | object pairs r s ih =>
    cases relation _ _ related with | sequences kind elements =>
    have length : h.length r = h.length s := elements.length_eq
    rw [equalInObjects]
    split
    · rfl
    rw [if_neg (by simp [kind, length])]
    split
    · rfl
    · rename_i fresh
      exact equalAllOf (List.forall₂_iff_zip.mpr ⟨length, fun member =>
        ih fresh length _ _ member (List.forall₂_zip elements member)⟩)

theorem answersAll {h : Heap} {pairs : List (Ref × Ref)} {as bs : List Value}
    (length : as.length = bs.length)
    (each : ∀ v w, (v, w) ∈ as.zip bs → h.Answers pairs v w (h.equalIn pairs v w)) :
    h.AnswersAll pairs as bs (h.equalAll pairs as bs) := by
  induction as generalizing bs with
  | nil =>
    cases bs with
    | nil => simp only [equalAll]; exact .none
    | cons b bs => cases length
  | cons a as ih =>
    cases bs with
    | nil => cases length
    | cons b bs =>
      have first := each a b List.mem_cons_self
      rw [equalAll]
      split
      · rename_i equal
        rw [equal] at first
        exact .agree first (ih (Nat.succ.inj length) fun v w member =>
          each v w (List.mem_cons_of_mem _ member))
      · rename_i differ
        rw [Bool.eq_false_iff.mpr differ] at first
        exact .differ first

theorem answers {h : Heap} (pairs : List (Ref × Ref)) (a b : Value) :
    h.Answers pairs a b (h.equalIn pairs a b) := by
  induction pairs, a, b using searchInduction (h := h) with
  | scalar pairs a b mixed =>
    cases a with
    | scalar s =>
      cases b with
      | scalar t => rw [equalIn]; exact .scalars s t
      | object r => simp only [equalIn]; exact .scalarFirst s r
    | object r =>
      cases b with
      | scalar t => simp only [equalIn]; exact .scalarSecond r t
      | object s => exact absurd rfl (mixed r s rfl)
  | object pairs r s ih =>
    rw [equalInObjects]
    split
    · rename_i same
      subst same
      exact .identical r
    rename_i other
    split
    · rename_i differ
      exact .unlike other differ
    rename_i alike
    rw [not_or, not_not, not_not] at alike
    split
    · rename_i met
      exact .again other alike.1 alike.2 met
    · rename_i fresh
      exact .inside other alike.1 alike.2 fresh (answersAll alike.2 (ih fresh alike.2))

mutual

theorem Answers.equal {h : Heap} {pairs : List (Ref × Ref)} {a b : Value} {answer : Bool}
    (run : h.Answers pairs a b answer) : h.equalIn pairs a b = answer := by
  match run with
  | .scalars s t => rw [equalIn]
  | .scalarFirst s r => simp [equalIn]
  | .scalarSecond r s => simp [equalIn]
  | .identical r => simp [equalInObjects]
  | .unlike other differ => rw [equalInObjects, if_neg other, if_pos differ]
  | .again other kind length met => simp [equalInObjects, kind, length, met]
  | .inside other kind length fresh elements =>
    simp [equalInObjects, other, kind, length, fresh, elements.equal]

theorem AnswersAll.equal {h : Heap} {pairs : List (Ref × Ref)} {as bs : List Value} {answer : Bool}
    (run : h.AnswersAll pairs as bs answer) : h.equalAll pairs as bs = answer := by
  match run with
  | .none => simp [equalAll]
  | .differ first => simp [equalAll, first.equal]
  | .agree first others => simp [equalAll, first.equal, others.equal]

end

theorem answersIff {h : Heap} {a b : Value} {answer : Bool} :
    h.Answers [] a b answer ↔ h.equal a b = answer :=
  ⟨fun run => run.equal, fun same => same ▸ answers [] a b⟩

def Bisimilar (h : Heap) (a b : Value) : Prop := ∃ R, h.Bisimulation R ∧ R a b

theorem equalIffBisimilar {h : Heap} (clean : h.NaNFree) (a b : Value) :
    h.equal a b = true ↔ h.Bisimilar a b := by
  constructor
  · intro equal
    exact ⟨_, alikeBisimulation h, fun n => equalAlike clean n equal fun p member => by cases member⟩
  · rintro ⟨R, relation, related⟩
    exact bisimilarEqual relation [] a b related

theorem Matches.flip {h : Heap} {R : Value → Value → Prop} {a b : Value} (look : h.Matches R a b) :
    h.Matches (fun a b => R b a) b a := by
  cases look with
  | scalars same => exact .scalars ((Scalar.sameFlip _ _).trans same)
  | sequences kind elements => exact .sequences kind.symm elements.flip

theorem elementsChain {R S : Value → Value → Prop} {as bs cs : List Value} (first : Forall₂ R as bs)
    (second : Forall₂ S bs cs) : Forall₂ (Relation.Comp R S) as cs := by
  induction first generalizing cs with
  | nil => cases second; exact .nil
  | cons one _ ih =>
    cases second with
    | cons other others => exact .cons ⟨_, one, other⟩ (ih others)

theorem Matches.chain {h : Heap} {R S : Value → Value → Prop} {a b c : Value}
    (first : h.Matches R a b) (second : h.Matches S b c) : h.Matches (Relation.Comp R S) a c := by
  cases first with
  | scalars same =>
    cases second with
    | scalars same' => exact .scalars (Scalar.sameChain same same')
  | sequences kind elements =>
    cases second with
    | sequences kind' elements' =>
      exact .sequences (kind.trans kind') (elementsChain elements elements')

namespace Bisimilar

variable {h : Heap} {a b c : Value}

theorem self (clean : h.NaNFree) (number : a.NotNaN) : h.Bisimilar a a :=
  ⟨_, alikeBisimulation h, fun n => alikeSelf clean n number⟩

theorem flip (bisimilar : h.Bisimilar a b) : h.Bisimilar b a := by
  obtain ⟨R, relation, related⟩ := bisimilar
  exact ⟨fun a b => R b a, fun a b back => (relation b a back).flip, related⟩

theorem chain (first : h.Bisimilar a b) (second : h.Bisimilar b c) : h.Bisimilar a c := by
  obtain ⟨R, relation, related⟩ := first
  obtain ⟨S, relation', related'⟩ := second
  refine ⟨Relation.Comp R S, ?_, b, related, related'⟩
  rintro x z ⟨y, front, back⟩
  exact (relation x y front).chain (relation' y z back)

end Bisimilar

/- On values without NaN the search always ends, and it answers that two values are equal exactly
when some relation that no look refutes holds between them. -/
theorem equalDecides (h : Heap) (clean : h.NaNFree) :
    (∀ a b, (∀ answer, h.Answers [] a b answer ↔ h.equal a b = answer) ∧
      (h.equal a b = true ↔ ∃ R, h.Bisimulation R ∧ R a b)) ∧
    (∀ a, a.NotNaN → h.equal a a = true) ∧
    (∀ a b, h.equal a b = true → h.equal b a = true) ∧
    ∀ a b c, h.equal a b = true → h.equal b c = true → h.equal a c = true := by
  have decides := equalIffBisimilar clean
  refine ⟨fun a b => ⟨fun _ => answersIff, decides a b⟩, fun a number => ?_, fun a b equal => ?_,
    fun a b c first second => ?_⟩
  · exact (decides a a).mpr (.self clean number)
  · exact (decides b a).mpr ((decides a b).mp equal).flip
  · exact (decides a c).mpr (((decides a b).mp first).chain ((decides b c).mp second))

def knots : Heap :=
  ⟨#[.list 0 [.object 0], .list 0 [.object 2], .list 0 [.object 1]], 1, []⟩

theorem knotsClean : knots.NaNFree := by
  intro r v member
  match r with
  | 0 => cases List.mem_singleton.mp member; trivial
  | 1 => cases List.mem_singleton.mp member; trivial
  | 2 => cases List.mem_singleton.mp member; trivial
  | r + 3 => cases member

theorem knotsAlike : knots.NaNFree ∧ ∃ R, knots.Bisimulation R ∧ R (.object 0) (.object 1) := by
  have equal : knots.equal (.object 0) (.object 1) = true := by cbv
  exact ⟨knotsClean, ((equalDecides knots knotsClean).1 _ _).2.mp equal⟩

end Heap

end SeqScript
