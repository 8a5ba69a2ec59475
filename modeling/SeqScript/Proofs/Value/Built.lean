import SeqScript.Proofs.Tree.Listing
import SeqScript.Proofs.Value.Depicted
import SeqScript.Proofs.Value.Printing

/-! Trees that build values. A constant builds its own scalar, a literal sequence builds the sequences
of its kind whose elements its slots build. A sequence that is built holds only what was built before
it, so it is written without an ellipsis, and as its tree is printed. -/
namespace SeqScript
namespace Expr

def isSequence : Expr → Bool
  | sequence _ _ _ => true
  | _ => false

def isLiteral : Expr → Bool
  | literal _ _ => true
  | _ => false

def Constant (e : Expr) : Prop :=
  e.All (fun d => d.isSequence = true ∨ d.constant?.isSome = true) False

def Display (e : Expr) : Prop := e.All (fun d => d.isSequence = true ∨ d.isLiteral = true) False

theorem Display.constant {e : Expr} (display : e.Display) : e.Constant := by
  refine All.weaken (fun d => Or.imp_right fun literal => ?_) id display
  cases d with
  | literal s span => rfl
  | _ => cases literal

end Expr

namespace Heap

mutual

inductive Builds (h : Heap) : Expr → Value → Prop where
  | scalar {e : Expr} {s : Scalar} (constant : e.constant? = some s) : Builds h e (.scalar s)
  | sequence {kind : SequenceKind} {elements : List (Option Expr)} {r : Ref} (span : Span)
      (held : h.holds r = true) (like : h.kind r = kind)
      (inside : BuildsAll h elements (h.items r)) :
      Builds h (.sequence kind elements span) (.object r)

inductive BuildsAll (h : Heap) : List (Option Expr) → List Value → Prop where
  | none : BuildsAll h [] []
  | more {e : Expr} {v : Value} {elements : List (Option Expr)} {vs : List Value}
      (first : Builds h e v) (others : BuildsAll h elements vs) :
      BuildsAll h (some e :: elements) (v :: vs)

end

variable {h h' : Heap}

mutual

theorem Builds.later {e : Expr} {v : Value} (builds : h.Builds e v) (spares : h.Spares h') :
    h'.Builds e v := by
  match builds with
  | .scalar constant => exact .scalar constant
  | @Builds.sequence _ kind elements r span held like inside =>
    have same := spares.held held
    have items : h'.items r = h.items r := congrArg Object.items same
    refine .sequence span (spares.holds held) ((congrArg Object.kind same).trans like) ?_
    rw [items]
    exact inside.later spares

theorem BuildsAll.later {elements : List (Option Expr)} {vs : List Value}
    (builds : h.BuildsAll elements vs) (spares : h.Spares h') : h'.BuildsAll elements vs := by
  match builds with
  | .none => exact .none
  | .more first others => exact .more (first.later spares) (others.later spares)

end

mutual

theorem Depicts.constant {e : Expr} {v : Value} (depicts : h.Depicts e v) : e.Constant := by
  match depicts with
  | @Depicts.scalar _ e s t constant same =>
    have leaf : e.isSequence = true ∨ e.constant?.isSome = true := .inr (by rw [constant]; rfl)
    cases e with
    | literal => exact leaf
    | unary op operand span =>
      refine ⟨leaf, ?_⟩
      cases op with
      | not => cases operand <;> cases constant
      | negate =>
        cases operand with
        | literal => exact .inr rfl
        | _ => cases constant
    | _ => cases constant
  | .sequence span held like inside => exact ⟨.inl rfl, inside.constant⟩

theorem DepictsAll.constant {elements : List (Option Expr)} {vs : List Value}
    (depicts : h.DepictsAll elements vs) :
    Expr.AllSlots (fun d => d.isSequence = true ∨ d.constant?.isSome = true) False elements := by
  match depicts with
  | .none => trivial
  | .more first others => exact ⟨first.constant, others.constant⟩

end

mutual

theorem Depicts.built {e : Expr} {v w : Value} (depicts : h.Depicts e v) (builds : h'.Builds e w) :
    h'.Depicts e w := by
  match builds with
  | .scalar constant =>
    cases depicts with
    | scalar constant' same =>
      cases constant.symm.trans constant'
      exact .scalar constant (Scalar.sameChain same ((Scalar.sameFlip _ _).trans same))
    | sequence => cases constant
  | .sequence span held like inside =>
    cases depicts with
    | scalar constant => cases constant
    | sequence _ _ _ inside' => exact .sequence span held like (inside'.built inside)

theorem DepictsAll.built {elements : List (Option Expr)} {vs ws : List Value}
    (depicts : h.DepictsAll elements vs) (builds : h'.BuildsAll elements ws) :
    h'.DepictsAll elements ws := by
  match builds with
  | .none => exact .none
  | .more first others =>
    cases depicts with
    | more first' others' => exact .more (first'.built first) (others'.built others)

end

mutual

/- Two printers meet here: that of trees, which puts separators between its pieces, and that of
values, which joins the texts of the items. -/
theorem Builds.writes {e : Expr} {v : Value} (builds : h.Builds e v) (display : e.Display) :
    h.WritesPlainly v e.printed := by
  match builds with
  | @Builds.scalar _ e s constant =>
    cases e with
    | literal s' span =>
      cases constant
      have text : (Expr.literal s span).printed = s.written := List.append_nil _
      rw [text]
      exact .scalar s
    | unary op operand span => exact absurd display.1 (by simp [Expr.isSequence, Expr.isLiteral])
    | _ => cases constant
  | .sequence span held like inside =>
    subst like
    rw [Expr.sequencePrinted, listingEnclosed]
    exact .sequence (inside.writes display.2)

theorem BuildsAll.writes {elements : List (Option Expr)} {vs : List Value}
    (builds : h.BuildsAll elements vs)
    (displays : Expr.AllSlots (fun d => d.isSequence = true ∨ d.isLiteral = true) False elements) :
    h.WritesPlainlyAll vs (elements.map Expr.slotText) := by
  match builds with
  | .none => exact .none
  | .more first others => exact .more (first.writes displays.1) (others.writes displays.2)

end

end Heap

end SeqScript
