import Mathlib.Data.List.TakeWhile
import Mathlib.Tactic.Ring
import SeqScript.Number.Decimal

/-! Runs of digits and their values. The digits of a whole number denote that number, and zeros
behind a run multiply its value by powers of ten. -/
namespace SeqScript.Text
open CodeUnit

theorem digitUnit : ∀ d < 10, (unit d.digitChar).isDigit = true ∧
    (unit d.digitChar).digitValue = d ∧ (unit d.digitChar = unit '0' → d = 0) := by decide

theorem ofNatEq (n : Nat) :
    ofNat n = (if n < 10 then [] else ofNat (n / 10)) ++ [unit (n % 10).digitChar] := by
  rw [ofNat, Nat.toDigits_eq_if (by decide)]
  split
  · rename_i small
    simp [Nat.mod_eq_of_lt small]
  · simp [ofNat]

theorem ofNatNonempty (n : Nat) : ofNat n ≠ [] := by rw [ofNatEq]; simp

theorem ofNatDigits (n : Nat) : ∀ u ∈ ofNat n, u.isDigit = true := by
  induction n using Nat.strongRecOn with
  | ind n ih =>
    have last := (digitUnit (n % 10) (Nat.mod_lt _ (by decide))).1
    intro u member
    rw [ofNatEq] at member
    rcases List.mem_append.mp member with before | same
    · split at before
      · simp at before
      · exact ih (n / 10) (by omega) u before
    · rw [List.mem_singleton.mp same]
      exact last

theorem digitsValueAppend (s t : Text) :
    digitsValue (s ++ t) = digitsValue s * 10 ^ t.length + digitsValue t := by
  have fold : ∀ (t : Text) (n : Nat), t.foldl (fun n u => 10 * n + u.digitValue) n =
      n * 10 ^ t.length + digitsValue t := by
    intro t
    induction t with
    | nil => simp [digitsValue]
    | cons u t ih =>
      intro n
      simp only [digitsValue, List.foldl_cons, List.length_cons, Nat.pow_succ] at ih ⊢
      rw [ih, ih (10 * 0 + u.digitValue)]
      ring
  rw [digitsValue, List.foldl_append, fold]
  rfl

theorem digitsValueOfNat (n : Nat) : digitsValue (ofNat n) = n := by
  induction n using Nat.strongRecOn with
  | ind n ih =>
    have last := (digitUnit (n % 10) (Nat.mod_lt _ (by decide))).2.1
    have single : digitsValue [unit (n % 10).digitChar] = n % 10 := by simp [digitsValue, last]
    rw [ofNatEq, digitsValueAppend, single]
    split
    · simp [digitsValue]; omega
    · rw [ih (n / 10) (by omega)]
      simp; omega

theorem digitsValueZeros (k : Nat) : digitsValue (Decimal.zeros k) = 0 := by
  induction k with
  | zero => rfl
  | succ k ih =>
    have split : Decimal.zeros (k + 1) = [unit '0'] ++ Decimal.zeros k := rfl
    rw [split, digitsValueAppend, ih]
    have none : (unit '0').digitValue = 0 := by decide
    simp [digitsValue, none]

theorem digitsValueAppendZeros (s : Text) (k : Nat) :
    digitsValue (s ++ Decimal.zeros k) = digitsValue s * 10 ^ k := by
  rw [digitsValueAppend, digitsValueZeros]
  simp [Decimal.zeros]

end SeqScript.Text

namespace SeqScript.Decimal
open Text

theorem lengthEq (n : Nat) : length n = (Text.ofNat n).length := by simp [length, Text.ofNat]

theorem lengthShift {n : Nat} (positive : 0 < n) (k : Nat) : length (n * 10 ^ k) = length n + k := by
  induction k with
  | zero => simp
  | succ k ih =>
    have large : ¬ n * 10 ^ (k + 1) < 10 := by
      have : 0 < n * 10 ^ k := Nat.mul_pos positive (Nat.pow_pos (by decide))
      rw [Nat.pow_succ, ← Nat.mul_assoc]; omega
    have quotient : n * 10 ^ (k + 1) / 10 = n * 10 ^ k := by
      rw [Nat.pow_succ, ← Nat.mul_assoc, Nat.mul_div_cancel _ (by decide)]
    rw [lengthEq, ofNatEq, if_neg large, quotient]
    rw [lengthEq] at ih
    simp [ih]; omega

theorem lengthLe {n k : Nat} (positive : 0 < k) : length n ≤ k ↔ n < 10 ^ k :=
  Nat.length_toDigits_le_iff (by decide) positive

theorem zerosDigits (k : Nat) : ∀ u ∈ zeros k, u.isDigit = true := by
  intro u member
  rw [List.eq_of_mem_replicate member]
  decide

theorem significantZeros (d : Decimal) :
    ∃ k, Text.ofNat d.digits = d.significant ++ zeros k := by
  refine ⟨((Text.ofNat d.digits).reverse.takeWhile (· == unit '0')).length, ?_⟩
  have cut := List.takeWhile_append_dropWhile (p := (· == unit '0')) (l := (Text.ofNat d.digits).reverse)
  have same : (Text.ofNat d.digits).reverse.takeWhile (· == unit '0') =
      zeros ((Text.ofNat d.digits).reverse.takeWhile (· == unit '0')).length := by
    refine List.eq_replicate_iff.mpr ⟨rfl, fun u member => ?_⟩
    simpa using List.mem_takeWhile_imp member
  have back := congrArg List.reverse cut
  rw [List.reverse_append, List.reverse_reverse, same] at back
  simpa [significant, zeros] using back.symm

theorem significantDigits (d : Decimal) : ∀ u ∈ d.significant, u.isDigit = true := by
  obtain ⟨k, cut⟩ := significantZeros d
  intro u member
  exact ofNatDigits d.digits u (cut ▸ List.mem_append_left _ member)

theorem significantNonempty {d : Decimal} (positive : 0 < d.digits) : d.significant ≠ [] := by
  intro empty
  obtain ⟨k, cut⟩ := significantZeros d
  have value := digitsValueOfNat d.digits
  rw [cut, empty, List.nil_append, digitsValueZeros] at value
  omega

end SeqScript.Decimal
