import Mathlib.Logic.Relation
import SeqScript.Proofs.Tree.Listing
import SeqScript.Proofs.Tree.Spelling
import SeqScript.Proofs.Value.Depicted
import SeqScript.Proofs.Value.Printing

/-! Values without cycles are written as trees are printed. The tree of such a value is one that text
can hold: a negative number is a sign before a number, and of the two zeros there is only one. -/
namespace SeqScript
open Relation (TransGen)

def Value.Finite : Value → Prop
  | .scalar (.number x) => ∃ negative m, x = .finite negative m
  | _ => True

namespace Heap

structure Plain (h : Heap) (v : Value) : Prop where
  held : ∀ r, h.Reaches v r → h.holds r = true
  noCycle : ∀ r, h.Reaches v r → ¬ TransGen h.Contains r r
  finite : v.Finite
  finiteInside : ∀ r, h.Reaches v r → ∀ w ∈ h.items r, w.Finite

theorem Plain.element {h : Heap} {r : Ref} {v : Value} (plain : h.Plain (.object r))
    (member : v ∈ h.items r) : h.Plain v where
  held s reaches := plain.held s (.inside member reaches)
  noCycle s reaches := plain.noCycle s (.inside member reaches)
  finite := plain.finiteInside r ⟨r, rfl, .refl⟩ v member
  finiteInside s reaches := plain.finiteInside s (.inside member reaches)

structure Spells (h : Heap) (v : Value) (written : Text) (e : Expr) : Prop where
  depicts : h.Depicts e v
  spellable : e.Spellable
  full : e.Full
  printed : e.printed = written

theorem spellsLiteral {h : Heap} {s : Scalar} (number : (Value.scalar s).NotNaN)
    (spelled : (Expr.literal s .synthetic).Spelled) :
    h.Spells (.scalar s) s.written (.literal s .synthetic) where
  depicts := .scalar rfl (Scalar.sameSelf number)
  spellable := spelled
  full := trivial
  printed := List.append_nil _

theorem spellsNumber {h : Heap} (negative : Bool) (m : Magnitude) :
    ∃ e, h.Spells (.scalar (.number (.finite negative m)))
      (Scalar.number (.finite negative m)).written e := by
  cases negative with
  | false => exact ⟨_, spellsLiteral rfl ⟨m, rfl⟩⟩
  | true =>
    by_cases zero : m.units = 0
    · refine ⟨.literal (.number (.finite false m)) .synthetic, .scalar rfl ?_, ⟨m, rfl⟩, trivial, ?_⟩
      · simp [Scalar.same, Number.same, Number.isZero, zero]
      · simp [Expr.printed, Expr.pieces, Scalar.written, Number.toText, zero]
    · refine ⟨.unary .negate (.literal (.number (.finite false m)) .synthetic) .synthetic,
        .scalar rfl (Scalar.sameSelf rfl), ⟨trivial, m, rfl⟩, ⟨trivial, trivial⟩, ?_⟩
      have sign : text "-" = [unit '-'] := rfl
      simp [Expr.printed, Expr.pieces, Scalar.written, Number.toText, zero, UnaryOp.written, sign]

theorem spellsScalar {h : Heap} {s : Scalar} (finite : (Value.scalar s).Finite) :
    ∃ e, h.Spells (.scalar s) s.written e := by
  cases s with
  | number x =>
    obtain ⟨negative, m, rfl⟩ := finite
    exact spellsNumber negative m
  | none => exact ⟨_, spellsLiteral trivial trivial⟩
  | bool b => exact ⟨_, spellsLiteral trivial trivial⟩
  | string t => exact ⟨_, spellsLiteral trivial trivial⟩

structure SpellsAll (h : Heap) (vs : List Value) (written : List Text) (es : List Expr) : Prop where
  depicts : h.DepictsAll (es.map some) vs
  spellable : ∀ e ∈ es, e.Spellable
  full : ∀ e ∈ es, e.Full
  printed : es.map Expr.printed = written

theorem spellsElements {h : Heap} {entered : List Ref} {vs : List Value}
    (each : ∀ v ∈ vs, ∃ e, h.Spells v (h.writtenIn entered v) e) :
    ∃ es, h.SpellsAll vs (h.writtenAll entered vs) es := by
  induction vs with
  | nil =>
    rw [writtenAll]
    exact ⟨[], .none, by simp, by simp, rfl⟩
  | cons v vs ih =>
    obtain ⟨⟨e, first⟩, others⟩ := List.forall_mem_cons.mp each
    obtain ⟨es, rest⟩ := ih others
    rw [writtenAll]
    exact ⟨e :: es, .more first.depicts rest.depicts,
      List.forall_mem_cons.mpr ⟨first.spellable, rest.spellable⟩,
      List.forall_mem_cons.mpr ⟨first.full, rest.full⟩, by simp [first.printed, rest.printed]⟩

theorem enclosePrinted (kind : SequenceKind) (es : List Expr) (span : Span) :
    (Expr.sequence kind (es.map some) span).printed = kind.enclose (es.map Expr.printed) := by
  have texts : (es.map some).map Expr.slotText = es.map Expr.printed := by
    rw [List.map_map]
    rfl
  rw [Expr.sequencePrinted, texts, listingEnclosed]

theorem spellsSequence {h : Heap} {r : Ref} (held : h.holds r = true) {written : List Text}
    {es : List Expr} (inside : h.SpellsAll (h.items r) written es) :
    h.Spells (.object r) ((h.kind r).enclose written) (.sequence (h.kind r) (es.map some) .synthetic) where
  depicts := .sequence _ held rfl inside.depicts
  spellable := ⟨trivial, Expr.allSlotsOfElements inside.spellable⟩
  full := ⟨trivial, Expr.allSlotsOfElements inside.full⟩
  printed := by rw [enclosePrinted, inside.printed]

theorem plainSpelled {h : Heap} {entered : List Ref} {v : Value} (plain : h.Plain v)
    (around : ∀ r ∈ entered, ∀ s, v = .object s → TransGen h.Contains r s) :
    ∃ e, h.Spells v (h.writtenIn entered v) e := by
  refine acyclicInduction (P := fun entered v => h.Plain v → ∃ e, h.Spells v (h.writtenIn entered v) e)
    (fun entered s plain => ?_) (fun entered r fresh each plain => ?_) plain.noCycle around plain
  · rw [writtenIn]
    exact spellsScalar plain.finite
  · have known := plain.held r ⟨r, rfl, .refl⟩
    obtain ⟨es, inside⟩ := spellsElements fun w member => each w member (plain.element member)
    rw [writtenObject, if_neg fresh, ← writtenAllMap]
    exact ⟨_, spellsSequence known inside⟩

end Heap

end SeqScript
