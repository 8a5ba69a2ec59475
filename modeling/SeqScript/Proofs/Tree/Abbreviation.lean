import Mathlib.Algebra.GroupWithZero.Nat
import Mathlib.Order.Bounds.Basic
import SeqScript.Tree.Summary

/-! How much of a listing its short form keeps. Every item that is kept makes the short form longer,
so the prefixes that fit are those up to a longest one; the search from above stops there. -/
namespace SeqScript
namespace Summary

variable {kind : SequenceKind} {items : List Text}

theorem lengthJoinEllipsis (front : List Text) :
    (Text.join comma (front ++ [ellipsis])).length = (front.map fun t => t.length + 2).sum + 3 := by
  induction front with
  | nil => decide
  | cons t front ih =>
    have split : Text.join comma (t :: front ++ [ellipsis]) =
        t ++ comma ++ Text.join comma (front ++ [ellipsis]) := by
      cases front <;> simp [Text.join, List.intercalate_cons_cons]
    have comma : comma.length = 2 := rfl
    rw [split, List.length_append, List.length_append, ih, comma, List.map_cons, List.sum_cons]
    omega

theorem lengthBrackets (kind : SequenceKind) : kind.opener.length = 1 ∧ kind.closer.length = 1 := by
  cases kind <;> decide

theorem lengthShortened (kind : SequenceKind) (items : List Text) (kept : Nat) :
    (shortened kind items kept).length =
      ((items.take kept).map fun t => t.length + 2).sum + 5 := by
  obtain ⟨opener, closer⟩ := lengthBrackets kind
  rw [shortened, List.length_append, List.length_append, lengthJoinEllipsis, opener, closer]
  omega

theorem shortenedGrows {i j : Nat} (fewer : i ≤ j) :
    (shortened kind items i).length ≤ (shortened kind items j).length := by
  have behind := List.take_append_drop i (items.take j)
  rw [List.take_take, Nat.min_eq_left fewer] at behind
  rw [lengthShortened, lengthShortened, ← behind, List.map_append, List.sum_append]
  omega

def Fitting (kind : SequenceKind) (items : List Text) (limits : Limits) : Set Nat :=
  {k | k ≤ (min items.length (max 0 limits.maxElements) : Int) ∧
    (shortened kind items k).length ≤ limits.maxLength}

theorem fittingLower (kind : SequenceKind) (items : List Text) (limits : Limits) :
    IsLowerSet (Fitting kind items limits) := by
  intro j i fewer fits
  have shorter : (shortened kind items i).length ≤ (shortened kind items j).length :=
    shortenedGrows fewer
  exact ⟨(Int.ofNat_le.mpr fewer).trans fits.1, (Int.ofNat_le.mpr shorter).trans fits.2⟩

/- An ellipsis alone has five units between its brackets, so it fits unless the limit is smaller. -/
theorem fittingEmpty (kind : SequenceKind) (items : List Text) (limits : Limits) :
    Fitting kind items limits = ∅ ↔ limits.maxLength < 5 := by
  have alone : 0 ∈ Fitting kind items limits ↔ 5 ≤ limits.maxLength := by
    simp [Fitting, lengthShortened]
  rw [← Int.not_le, ← alone]
  refine ⟨fun none there => by rw [none] at there; exact there, fun absent => ?_⟩
  exact Set.eq_empty_of_forall_notMem fun k fits =>
    absent (fittingLower kind items limits (Nat.zero_le k) fits)

theorem keptCountGreatest (kind : SequenceKind) (items : List Text) (maxLength : Int) (most : Nat) :
    let fits := {k | k ≤ most ∧ ((shortened kind items k).length : Int) ≤ maxLength}
    IsGreatest fits (keptCount kind items maxLength most) ∨
      fits = ∅ ∧ keptCount kind items maxLength most = 0 := by
  induction most with
  | zero =>
    by_cases short : ((shortened kind items 0).length : Int) ≤ maxLength
    · exact .inl ⟨⟨Nat.le_refl 0, short⟩, fun k fits => fits.1⟩
    · refine .inr ⟨Set.eq_empty_of_forall_notMem fun k fits => short ?_, rfl⟩
      exact Nat.le_zero.mp fits.1 ▸ fits.2
  | succ n ih =>
    rw [keptCount]
    split
    · rename_i short
      exact .inl ⟨⟨Nat.le_refl _, short⟩, fun k fits => fits.1⟩
    · rename_i long
      have same : {k | k ≤ n + 1 ∧ ((shortened kind items k).length : Int) ≤ maxLength} =
          {k | k ≤ n ∧ ((shortened kind items k).length : Int) ≤ maxLength} := by
        ext k
        refine ⟨fun fits => ⟨Nat.le_of_lt_succ (Nat.lt_of_le_of_ne fits.1 ?_), fits.2⟩,
          fun fits => ⟨Nat.le_succ_of_le fits.1, fits.2⟩⟩
        rintro rfl
        exact long fits.2
      rwa [same]

theorem fittingKept (kind : SequenceKind) (items : List Text) (limits : Limits) :
    let k := keptCount kind items limits.maxLength (min items.length limits.maxElements.toNat)
    IsGreatest (Fitting kind items limits) k ∨ Fitting kind items limits = ∅ ∧ k = 0 := by
  have same : Fitting kind items limits = {k | k ≤ min items.length limits.maxElements.toNat ∧
      ((shortened kind items k).length : Int) ≤ limits.maxLength} := by
    ext k
    exact and_congr_left fun _ => by omega
  rw [same]
  exact keptCountGreatest kind items _ _

theorem keptCountFits (kind : SequenceKind) (items : List Text) (maxLength : Int) (most : Nat) :
    ((shortened kind items (keptCount kind items maxLength most)).length : Int) ≤ max maxLength 5 := by
  rcases keptCountGreatest kind items maxLength most with greatest | ⟨_, none⟩
  · exact greatest.1.2.trans (Int.le_max_left _ _)
  · rw [none, lengthShortened]
    exact Int.le_max_right _ _

theorem abbreviatedLength (kind : SequenceKind) (items : List Text) (limits : Limits) :
    ((abbreviated kind items limits).length : Int) ≤ max limits.maxLength 5 := by
  simp only [abbreviated]
  split
  · rename_i whole
    exact whole.2.trans (Int.le_max_left _ _)
  · exact keptCountFits kind items _ _

/- A listing within both limits is given whole. Any other one ends with an ellipsis behind the longest
prefix of its items that fits, or behind none where not even the ellipsis alone fits. So the text is
within the limit, or has the five units of an ellipsis between brackets; and that is so for every
sequence literal, however its elements are nested and whichever of them are missing. -/
theorem abbreviatedLongest (kind : SequenceKind) (items : List Text) (limits : Limits) :
    (items.length ≤ limits.maxElements ∧ (listing kind items).length ≤ limits.maxLength →
      abbreviated kind items limits = listing kind items) ∧
    (¬ (items.length ≤ limits.maxElements ∧ (listing kind items).length ≤ limits.maxLength) →
      ∃ k, abbreviated kind items limits = shortened kind items k ∧
        (IsGreatest (Fitting kind items limits) k ∨ Fitting kind items limits = ∅ ∧ k = 0)) ∧
    IsLowerSet (Fitting kind items limits) ∧
    (Fitting kind items limits = ∅ ↔ limits.maxLength < 5) ∧
    ((abbreviated kind items limits).length : Int) ≤ max limits.maxLength 5 ∧
    ∀ (elements : List (Option Expr)) (span : Span),
      (((Expr.sequence kind elements span).summary limits).length : Int) ≤ max limits.maxLength 5 := by
  refine ⟨fun whole => if_pos whole, fun cut => ⟨_, if_neg cut, fittingKept kind items limits⟩,
    fittingLower kind items limits, fittingEmpty kind items limits,
    abbreviatedLength kind items limits, fun elements span => ?_⟩
  rw [Expr.summary]
  exact abbreviatedLength kind _ limits

end Summary
end SeqScript
