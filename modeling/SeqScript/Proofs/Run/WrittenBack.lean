import SeqScript.Proofs.Run.Displays
import SeqScript.Proofs.Tree.RoundTrip
import SeqScript.Proofs.Value.Spelled

/-! Written values are read back. The written form of a value without cycles is parsed, and what it
evaluates to equals the value, in every context that no abort stops. -/
namespace SeqScript
open Relation (TransGen)
open Stepper (runFrom)

variable {σ : Type}

namespace Eval

variable {ctx : Context σ}

theorem runDepicting {h : Heap} {e : Expr} {v : Value} (depicts : h.Depicts e v) {s : State σ}
    (running : ¬ ctx.Aborted s) :
    ∃ w h', runFrom s (expr ctx e) = (.ok w, s.withHeap h') ∧ s.store.heap.Spares h' ∧
      h'.Depicts e w := by
  obtain ⟨w, h', ran, spares, builds⟩ := runBuilding depicts.constant running
  exact ⟨w, h', ran, spares, depicts.built builds⟩

end Eval

namespace Parser

theorem printedExpression {e : Expr} (spelled : e.Spellable) (full : e.Full) :
    ∃ r, expression e.printed = .ok r ∧ r.bare = e.bare := by
  have lexes := Expr.lexesExpr spelled 0
  obtain ⟨xs, written, reads, _⟩ := Expr.readsExpr spelled full
  rw [written] at lexes
  obtain ⟨ts, last, same, ends, tokens⟩ := tokenizeLexed lexes
  obtain ⟨r, derives, equal⟩ := reads.expr same
  exact ⟨r, (exprOfTokenized tokens).trans (exprAccepted derives ends), equal⟩

end Parser

namespace Run

/- The written form of a value without cycles whose numbers are finite is an expression, and that
expression has a value equal to it wherever no abort is pending. -/
theorem writtenEvaluates (ctx : Context σ) (s : State σ) (v : Value) (running : ¬ ctx.Aborted s)
    (plain : s.store.heap.Plain v) :
    ∃ e w t, Parser.expression (s.store.heap.written v) = .ok e ∧ evaluate ctx e s = (.ok w, t) ∧
      t.store.heap.equal v w = true := by
  have written : ∃ e, s.store.heap.Spells v (s.store.heap.written v) e :=
    Heap.plainSpelled plain fun r outer => nomatch outer
  obtain ⟨e, spelled⟩ := written
  obtain ⟨r, parsed, same⟩ := Parser.printedExpression spelled.spellable spelled.full
  have depicts := spelled.depicts.bare same
  obtain ⟨w, h', ran, spares, depicted⟩ := Eval.runDepicting depicts running
  rw [spelled.printed] at parsed
  exact ⟨r, w, s.withHeap h', parsed, ran, Heap.depictedEqual (depicts.later spares) depicted⟩

def minusZero : Number := .finite true ⟨0, Number.representableZero⟩

theorem representableOne : Representable 1 := by decide +kernel

def minusLeast : Number := .finite true ⟨1, representableOne⟩

def twice : Heap :=
  ⟨#[.tuple [.number minusLeast],
    .list 0 [.object 0, .object 0, .string [CodeUnit.newline], .number minusZero]], 1, []⟩

theorem twiceContains {r s : Ref} (edge : twice.Contains r s) : r = 1 ∧ s = 0 := by
  match r with
  | 0 => simp [Heap.Contains, twice, Heap.items, Heap.get, Object.items, Value.number] at edge
  | 1 =>
    simp [Heap.Contains, twice, Heap.items, Heap.get, Object.items, Value.number, Value.string] at edge
    exact ⟨rfl, edge⟩
  | r + 2 => cases edge

theorem twicePlain : twice.Plain (.object 1) := by
  have inside (r : Ref) (reaches : twice.Reaches (.object 1) r) : r = 0 ∨ r = 1 := by
    obtain ⟨_, ⟨⟩, path⟩ := reaches
    cases path with
    | refl => exact .inr rfl
    | tail _ edge => exact .inl (twiceContains edge).2
  refine ⟨fun r reaches => ?_, fun r reaches path => ?_, trivial, fun r reaches v member => ?_⟩
  · rcases inside r reaches with rfl | rfl <;> rfl
  · obtain ⟨_, first, _⟩ := TransGen.head'_iff.mp path
    obtain ⟨_, _, last⟩ := TransGen.tail'_iff.mp path
    have same := (twiceContains first).1.symm.trans (twiceContains last).2
    cases same
  · rcases inside r reaches with rfl | rfl
    · cases List.mem_singleton.mp member
      exact ⟨_, _, rfl⟩
    · have held : v = .object 0 ∨ v = .string [CodeUnit.newline] ∨ v = .number minusZero := by
        simpa [twice, Heap.items, Heap.get, Object.items] using member
      rcases held with rfl | rfl | rfl
      · trivial
      · trivial
      · exact ⟨_, _, rfl⟩

theorem twiceEvaluates :
    let s : State Unit := ⟨⟨twice, [], false, ()⟩, []⟩
    ¬ (Context.plain 0).Aborted s ∧ twice.Plain (.object 1) ∧
      ∃ e w t, Parser.expression (twice.written (.object 1)) = .ok e ∧
        evaluate (.plain 0) e s = (.ok w, t) ∧ t.store.heap.equal (.object 1) w = true := by
  intro s
  have running : ¬ (Context.plain 0).Aborted s := by simp [Context.Aborted, Context.plain]
  exact ⟨running, twicePlain, writtenEvaluates (.plain 0) s (.object 1) running twicePlain⟩

end Run

end SeqScript
