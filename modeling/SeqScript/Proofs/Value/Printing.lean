import Mathlib.Data.Finset.Basic
import Mathlib.Data.Finset.Dedup
import SeqScript.Proofs.Value.Region
import SeqScript.Value.Written

/-! How values are written. A guard holds the sequences that were entered and not left yet; a sequence
in the guard is not entered again, so there are ever fewer that can be, and the writing ends. What is
written is a tree of occurrences, and an occurrence is an ellipsis exactly inside itself. Without the
guard, the values from which no cycle is reached are written the same, and the others never end. -/
namespace SeqScript
open Relation (ReflTransGen TransGen)

inductive Printing where
  | scalar (s : Scalar)
  | full (r : Ref) (parts : List Printing)
  | ellipsis (r : Ref)

namespace Printing

def value : Printing → Value
  | scalar s => .scalar s
  | full r _ | ellipsis r => .object r

mutual

def text (h : Heap) : Printing → Text
  | scalar s => s.written
  | full r parts => (h.kind r).enclose (texts h parts)
  | ellipsis r => (h.kind r).inside

def texts (h : Heap) : List Printing → List Text
  | [] => []
  | p :: rest => p.text h :: texts h rest

end

inductive Occurs : Printing → List Ref → Printing → Prop where
  | here (p : Printing) : Occurs p [] p
  | inside {r : Ref} {parts : List Printing} {p q : Printing} {enclosing : List Ref}
      (part : p ∈ parts) (deeper : p.Occurs enclosing q) :
      Occurs (full r parts) (enclosing ++ [r]) q

end Printing

namespace Heap

/-- A printing of a value that stands inside some sequences. Wherever a sequence is given in full, it
is given with its items; it is given as an ellipsis where it encloses itself, and nowhere else. -/
structure Shows (h : Heap) (around : List Ref) (v : Value) (p : Printing) : Prop where
  value : p.value = v
  items : ∀ enclosing r parts, p.Occurs enclosing (.full r parts) →
    parts.map Printing.value = h.items r
  ellipses : ∀ enclosing q r, p.Occurs enclosing q → q.value = .object r →
    (q = .ellipsis r ↔ r ∈ enclosing ++ around)

mutual

inductive Writes (h : Heap) : Finset Ref → Value → Text → Finset Ref → Prop where
  | scalar (guard : Finset Ref) (s : Scalar) : Writes h guard (.scalar s) s.written guard
  | again {guard : Finset Ref} {r : Ref} (met : r ∈ guard) :
      Writes h guard (.object r) (h.kind r).inside guard
  | enter {guard behind : Finset Ref} {r : Ref} {parts : List Text} (fresh : r ∉ guard)
      (items : WritesAll h (insert r guard) (h.items r) parts behind) :
      Writes h guard (.object r) ((h.kind r).enclose parts) (behind.erase r)

inductive WritesAll (h : Heap) : Finset Ref → List Value → List Text → Finset Ref → Prop where
  | none (guard : Finset Ref) : WritesAll h guard [] [] guard
  | more {guard between behind : Finset Ref} {v : Value} {t : Text} {vs : List Value}
      {ts : List Text} (first : Writes h guard v t between)
      (others : WritesAll h between vs ts behind) : WritesAll h guard (v :: vs) (t :: ts) behind

end

mutual

inductive WritesPlainly (h : Heap) : Value → Text → Prop where
  | scalar (s : Scalar) : WritesPlainly h (.scalar s) s.written
  | sequence {r : Ref} {parts : List Text} (items : WritesPlainlyAll h (h.items r) parts) :
      WritesPlainly h (.object r) ((h.kind r).enclose parts)

inductive WritesPlainlyAll (h : Heap) : List Value → List Text → Prop where
  | none : WritesPlainlyAll h [] []
  | more {v : Value} {t : Text} {vs : List Value} {ts : List Text} (first : WritesPlainly h v t)
      (others : WritesPlainlyAll h vs ts) : WritesPlainlyAll h (v :: vs) (t :: ts)

end

def Acyclic (h : Heap) (v : Value) : Prop := ∀ r, h.Reaches v r → ¬ TransGen h.Contains r r

variable {h : Heap}

theorem writesAllIff {guard : Finset Ref} {write : Value → Text} {vs : List Value}
    (each : ∀ v ∈ vs, ∀ t behind, h.Writes guard v t behind ↔ t = write v ∧ behind = guard)
    (ts : List Text) (behind : Finset Ref) :
    h.WritesAll guard vs ts behind ↔ ts = vs.map write ∧ behind = guard := by
  induction vs generalizing ts with
  | nil =>
    constructor
    · rintro ⟨⟩
      exact ⟨rfl, rfl⟩
    · rintro ⟨rfl, rfl⟩
      exact .none _
  | cons v vs ih =>
    obtain ⟨one, others⟩ := List.forall_mem_cons.mp each
    constructor
    · rintro (_ | ⟨first, rest⟩)
      obtain ⟨rfl, rfl⟩ := (one _ _).mp first
      obtain ⟨rfl, rfl⟩ := (ih others _).mp rest
      exact ⟨rfl, rfl⟩
    · rintro ⟨rfl, rfl⟩
      exact .more ((one _ _).mpr ⟨rfl, rfl⟩) ((ih others _).mpr ⟨rfl, rfl⟩)

/- Behind every value the guard is what it was, so a sequence that is only shared is entered again. -/
theorem writesIff (entered : List Ref) (v : Value) (t : Text) (behind : Finset Ref) :
    h.Writes entered.toFinset v t behind ↔
      t = h.writtenIn entered v ∧ behind = entered.toFinset := by
  induction entered, v using writingInduction (h := h) generalizing t behind with
  | scalar entered s =>
    rw [writtenIn]
    constructor
    · rintro ⟨⟩
      exact ⟨rfl, rfl⟩
    · rintro ⟨rfl, rfl⟩
      exact .scalar _ s
  | object entered r ih =>
    rw [writtenObject]
    by_cases met : r ∈ entered
    · rw [if_pos met]
      have guarded := List.mem_toFinset.mpr met
      constructor
      · rintro (_ | _ | ⟨fresh, _⟩)
        · exact ⟨rfl, rfl⟩
        · exact absurd guarded fresh
      · rintro ⟨rfl, rfl⟩
        exact .again guarded
    · rw [if_neg met]
      have fresh : r ∉ entered.toFinset := fun there => met (List.mem_toFinset.mp there)
      have each : ∀ v ∈ h.items r, ∀ t behind, h.Writes (insert r entered.toFinset) v t behind ↔
          t = h.writtenIn (r :: entered) v ∧ behind = insert r entered.toFinset := by
        simpa using ih met
      have items := writesAllIff each
      constructor
      · rintro (_ | again | ⟨_, inside⟩)
        · exact absurd again fresh
        · obtain ⟨rfl, rfl⟩ := (items _ _).mp inside
          exact ⟨rfl, Finset.erase_insert fresh⟩
      · rintro ⟨rfl, rfl⟩
        have inside := (items _ _).mpr ⟨rfl, rfl⟩
        simpa [Finset.erase_insert fresh] using Writes.enter fresh inside

theorem showsScalar {around : List Ref} {v : Value} {s : Scalar} :
    h.Shows around v (.scalar s) ↔ v = .scalar s := by
  refine ⟨fun shows => shows.value.symm, ?_⟩
  rintro rfl
  refine ⟨rfl, ?_, ?_⟩
  · rintro _ _ _ ⟨⟩
  · rintro _ _ _ ⟨⟩ ⟨⟩

theorem showsEllipsis {around : List Ref} {v : Value} {r : Ref} :
    h.Shows around v (.ellipsis r) ↔ v = .object r ∧ r ∈ around := by
  constructor
  · intro shows
    exact ⟨shows.value.symm, (shows.ellipses [] _ r (.here _) rfl).mp rfl⟩
  · rintro ⟨rfl, met⟩
    refine ⟨rfl, ?_, ?_⟩
    · rintro _ _ _ ⟨⟩
    · rintro _ _ _ ⟨⟩ ⟨⟩
      exact ⟨fun _ => met, fun _ => rfl⟩

theorem showsFull {around : List Ref} {v : Value} {r : Ref} {parts : List Printing} :
    h.Shows around v (.full r parts) ↔ v = .object r ∧ r ∉ around ∧
      parts.map Printing.value = h.items r ∧ ∀ p ∈ parts, h.Shows (r :: around) p.value p := by
  have outward (enclosing : List Ref) : enclosing ++ [r] ++ around = enclosing ++ r :: around := by
    simp
  constructor
  · intro shows
    refine ⟨shows.value.symm, fun met => ?_, shows.items [] r parts (.here _), fun p part => ?_⟩
    · cases (shows.ellipses [] _ r (.here _) rfl).mpr met
    · refine ⟨rfl, fun enclosing s inner occurs => shows.items _ s inner (.inside part occurs),
        fun enclosing q s occurs same => ?_⟩
      rw [← outward]
      exact shows.ellipses _ q s (.inside part occurs) same
  · rintro ⟨rfl, fresh, items, shown⟩
    refine ⟨rfl, ?_, ?_⟩
    · rintro _ _ _ (_ | ⟨part, deeper⟩)
      · exact items
      · exact (shown _ part).items _ _ _ deeper
    · rintro _ _ _ (_ | ⟨part, deeper⟩) same
      · cases same
        exact ⟨fun full => (by cases full), fun met => absurd met fresh⟩
      · rw [outward]
        exact (shown _ part).ellipses _ _ _ deeper same

def Shown (h : Heap) (around : List Ref) (v : Value) (p : Printing) : Prop :=
  (∀ q, h.Shows around v q ↔ q = p) ∧ p.text h = h.writtenIn around v

theorem itemsShown {around : List Ref} {vs : List Value} (each : ∀ v ∈ vs, ∃ p, h.Shown around v p) :
    ∃ ps, (∀ qs, (qs.map Printing.value = vs ∧ ∀ q ∈ qs, h.Shows around q.value q) ↔ qs = ps) ∧
      Printing.texts h ps = vs.map (h.writtenIn around) := by
  induction vs with
  | nil =>
    refine ⟨[], fun qs => ⟨fun shown => List.map_eq_nil_iff.mp shown.1, ?_⟩, rfl⟩
    rintro rfl
    exact ⟨rfl, List.forall_mem_nil _⟩
  | cons v vs ih =>
    obtain ⟨⟨p, only, reads⟩, others⟩ := List.forall_mem_cons.mp each
    obtain ⟨ps, onlyRest, readsRest⟩ := ih others
    refine ⟨p :: ps, fun qs => ⟨?_, ?_⟩, by rw [Printing.texts, reads, readsRest, List.map_cons]⟩
    · rintro ⟨values, shown⟩
      cases qs with
      | nil => cases values
      | cons q qs =>
        obtain ⟨rfl, rfl⟩ := List.cons.inj values
        obtain ⟨first, rest⟩ := List.forall_mem_cons.mp shown
        rw [(only q).mp first, (onlyRest qs).mp ⟨rfl, rest⟩]
    · rintro rfl
      have first := (only p).mpr rfl
      obtain ⟨values, rest⟩ := (onlyRest ps).mpr rfl
      rw [List.map_cons, values, first.value]
      exact ⟨rfl, List.forall_mem_cons.mpr ⟨first.value ▸ first, rest⟩⟩

theorem valueShown (around : List Ref) (v : Value) : ∃ p, h.Shown around v p := by
  induction around, v using writingInduction (h := h) with
  | scalar around s =>
    refine ⟨.scalar s, fun q => ⟨fun shows => ?_, ?_⟩, by rw [writtenIn]; rfl⟩
    · cases q with
      | scalar => exact congrArg _ (Value.scalar.inj (showsScalar.mp shows)).symm
      | full => cases (showsFull.mp shows).1
      | ellipsis => cases (showsEllipsis.mp shows).1
    · rintro rfl
      exact showsScalar.mpr rfl
  | object around r ih =>
    by_cases met : r ∈ around
    · refine ⟨.ellipsis r, fun q => ⟨fun shows => ?_, ?_⟩, by rw [writtenObject, if_pos met]; rfl⟩
      · exact (shows.ellipses [] q r (.here q) shows.value).mpr met
      · rintro rfl
        exact showsEllipsis.mpr ⟨rfl, met⟩
    · obtain ⟨ps, only, reads⟩ := itemsShown (ih met)
      refine ⟨.full r ps, fun q => ⟨fun shows => ?_, ?_⟩, ?_⟩
      · cases q with
        | scalar => cases showsScalar.mp shows
        | ellipsis =>
          obtain ⟨same, there⟩ := showsEllipsis.mp shows
          cases same
          exact absurd there met
        | full s parts =>
          obtain ⟨same, _, shown⟩ := showsFull.mp shows
          cases same
          rw [(only parts).mp shown]
      · rintro rfl
        exact showsFull.mpr ⟨rfl, met, (only ps).mpr rfl⟩
      · rw [writtenObject, if_neg met, Printing.text, reads]

theorem Acyclic.element {r : Ref} {v : Value} (acyclic : h.Acyclic (.object r))
    (member : v ∈ h.items r) : h.Acyclic v :=
  fun s reaches => acyclic s (.inside member reaches)

theorem plainlyAllIff {write : Value → Text} {vs : List Value}
    (each : ∀ v ∈ vs, ∀ t, h.WritesPlainly v t ↔ t = write v) (ts : List Text) :
    h.WritesPlainlyAll vs ts ↔ ts = vs.map write := by
  induction vs generalizing ts with
  | nil =>
    constructor
    · rintro ⟨⟩
      rfl
    · rintro rfl
      exact .none
  | cons v vs ih =>
    obtain ⟨one, others⟩ := List.forall_mem_cons.mp each
    constructor
    · rintro (_ | ⟨first, rest⟩)
      rw [(one _).mp first, (ih others _).mp rest, List.map_cons]
    · rintro rfl
      exact .more ((one _).mpr rfl) ((ih others _).mpr rfl)

/- Around a value without cycles are only sequences that it is inside of, so none of its own has been
entered when it is reached. -/
theorem acyclicInduction {P : List Ref → Value → Prop} (scalar : ∀ entered s, P entered (.scalar s))
    (object : ∀ entered r, r ∉ entered → (∀ v ∈ h.items r, P (r :: entered) v) →
      P entered (.object r)) {entered : List Ref} {v : Value} (acyclic : h.Acyclic v)
    (around : ∀ r ∈ entered, ∀ s, v = .object s → TransGen h.Contains r s) : P entered v := by
  induction entered, v using writingInduction (h := h) with
  | scalar entered s => exact scalar entered s
  | object entered r ih =>
    have fresh : r ∉ entered := fun member =>
      acyclic r ⟨r, rfl, .refl⟩ (around r member r rfl)
    refine object entered r fresh fun v member =>
      ih fresh v member (acyclic.element member) fun s outer u same => ?_
    subst same
    rcases List.mem_cons.mp outer with rfl | outer
    · exact .single member
    · exact (around s outer r rfl).tail member

theorem plainlyIff {v : Value} (acyclic : h.Acyclic v) (t : Text) :
    h.WritesPlainly v t ↔ t = h.written v := by
  refine acyclicInduction (P := fun entered v => ∀ t, h.WritesPlainly v t ↔ t = h.writtenIn entered v)
    (fun entered s t => ?_) (fun entered r fresh each t => ?_) acyclic (List.forall_mem_nil _) t
  · rw [writtenIn]
    constructor
    · rintro ⟨⟩
      rfl
    · rintro rfl
      exact .scalar s
  · have items := plainlyAllIff each
    rw [writtenObject, if_neg fresh]
    constructor
    · rintro (_ | ⟨inside⟩)
      rw [(items _).mp inside]
    · rintro rfl
      exact .sequence ((items _).mpr rfl)

mutual

theorem WritesPlainly.ends {v : Value} {t : Text} (writes : h.WritesPlainly v t) (r : Ref)
    (same : v = .object r) : Acc (fun s r => h.Contains r s) r := by
  match writes with
  | .scalar _ => cases same
  | .sequence items => exact Value.object.inj same ▸ ⟨_, fun s member => items.ends s member⟩

theorem WritesPlainlyAll.ends {vs : List Value} {ts : List Text} (writes : h.WritesPlainlyAll vs ts)
    (r : Ref) (member : Value.object r ∈ vs) : Acc (fun s r => h.Contains r s) r := by
  match writes with
  | .none => cases member
  | .more first others =>
    rcases List.mem_cons.mp member with same | member
    · exact first.ends r same.symm
    · exact others.ends r member

end

theorem accNoCycle {r : Ref} (ends : Acc (fun s r => h.Contains r s) r) :
    ¬ TransGen h.Contains r r := by
  induction ends with
  | intro r _ ih =>
    intro cycle
    obtain ⟨s, first, back⟩ := TransGen.head'_iff.mp cycle
    exact ih s first (TransGen.tail' back first)

theorem WritesPlainly.acyclic {v : Value} {t : Text} (writes : h.WritesPlainly v t) :
    h.Acyclic v := by
  rintro r ⟨s, rfl, path⟩
  have ends : Acc (fun s r => h.Contains r s) r := by
    induction path with
    | refl => exact writes.ends s rfl
    | tail _ last ih => exact ih.inv last
  exact accNoCycle ends

/- The writing of a value always ends, with the guard as it was before. What is written is the one
printing in which a sequence is an ellipsis exactly where it is one of those that enclose it. And the
writing without a guard ends exactly for the values from which no cycle is reached, however their
parts are shared, with the same text. -/
theorem writtenExactly (h : Heap) (v : Value) :
    (∀ t guard, h.Writes ∅ v t guard ↔ t = h.written v ∧ guard = ∅) ∧
    (∃ p, (∀ q, h.Shows [] v q ↔ q = p) ∧ p.text h = h.written v) ∧
    ∀ t, h.WritesPlainly v t ↔ h.Acyclic v ∧ t = h.written v := by
  refine ⟨writesIff [] v, valueShown [] v, fun t => ⟨fun writes => ?_, fun ⟨acyclic, same⟩ => ?_⟩⟩
  · have acyclic := writes.acyclic
    exact ⟨acyclic, (plainlyIff acyclic t).mp writes⟩
  · exact (plainlyIff acyclic t).mpr same

example : written ⟨#[.tuple [], .list 0 [.object 0, .object 0, .object 1]], 1, []⟩ (.object 1) =
    text "[(), (), [...]]" := by cbv

end Heap

end SeqScript
