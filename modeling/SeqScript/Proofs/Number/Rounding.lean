import SeqScript.Proofs.Number.Digits

/-! Reading a decimal depends on its value only. A factor that numerator and denominator share
does not move a rounded quotient, and zeros moved between the digits and the exponent do not move
a number. Every magnitude is read back from its exact decimal. -/
namespace SeqScript.Number

theorem roundHalfEvenScale (n d : Nat) {k : Nat} (positive : 0 < k) :
    roundHalfEven (n * k) (d * k) = roundHalfEven n d := by
  have below (a b : Nat) : 2 * (a * k) < b * k ↔ 2 * a < b := by
    rw [← Nat.mul_assoc]; exact Nat.mul_lt_mul_right positive
  have above (a b : Nat) : b * k < 2 * (a * k) ↔ b < 2 * a := by
    rw [← Nat.mul_assoc]; exact Nat.mul_lt_mul_right positive
  simp only [roundHalfEven, Nat.mul_div_mul_right _ _ positive, Nat.mul_mod_mul_right, below, above]

theorem ofUnitsScale (negative : Bool) (n d : Nat) {k : Nat} (positive : 0 < k) :
    ofUnits negative (n * k) (d * k) = ofUnits negative n d := by
  have same : roundUnits (n * k) (d * k) = roundUnits n d := by
    simp only [roundUnits, Nat.mul_div_mul_right _ _ positive]
    rw [Nat.mul_right_comm d k, roundHalfEvenScale _ _ positive]
  simp only [ofUnits, same]

theorem roundUnitsExact {units : Nat} (exact : 2 ^ (units.log2 - 52) ∣ units) :
    roundUnits units 1 = units := by
  have whole : units % 2 ^ (units.log2 - 52) = 0 := Nat.mod_eq_zero_of_dvd exact
  have positive : 0 < 2 ^ (units.log2 - 52) := Nat.two_pow_pos _
  simp only [roundUnits, roundHalfEven, Nat.div_one, Nat.one_mul, whole, Nat.mul_zero]
  rw [if_pos positive, Nat.div_mul_cancel exact]

theorem ofUnitsExact (negative : Bool) (m : Magnitude) :
    ofUnits negative m.units 1 = .finite negative m := by
  obtain ⟨units, bound, exact⟩ := m
  simp only [ofUnits, roundUnitsExact exact, dif_pos bound]

end SeqScript.Number

namespace SeqScript.Decimal
open Number

theorem pointShift {digits : Nat} (positive : 0 < digits) (exponent : Int) (k : Nat) :
    point ⟨digits * 10 ^ k, exponent⟩ = point ⟨digits, exponent + k⟩ := by
  simp only [point, lengthShift positive]
  omega

theorem toNumberShift (negative : Bool) (digits k : Nat) (exponent : Int) :
    toNumber negative ⟨digits * 10 ^ k, exponent⟩ = toNumber negative ⟨digits, exponent + k⟩ := by
  by_cases zero : digits = 0
  · simp [toNumber, zero]
  have positive : 0 < digits := Nat.pos_of_ne_zero zero
  have nonzero : digits * 10 ^ k ≠ 0 := Nat.mul_ne_zero zero (Nat.pow_pos (by decide)).ne'
  simp only [toNumber, zero, nonzero, pointShift positive, false_or]
  split
  · rfl
  split
  · rfl
  -- the exponent may change its sign, and with it the side that the power of ten stands on
  rcases Int.lt_or_le exponent 0 with small | large
  · rw [if_neg (by omega)]
    split
    · rename_i crossed
      have sum : k = (exponent + k).toNat + (-exponent).toNat := by omega
      have split : digits * 10 ^ k * unitsPerOne =
          digits * 10 ^ (exponent + k).toNat * unitsPerOne * 10 ^ (-exponent).toNat := by
        conv_lhs => rw [sum]
        rw [Nat.pow_add]; ring
      have scale := ofUnitsScale negative (digits * 10 ^ (exponent + k).toNat * unitsPerOne) 1
        (k := 10 ^ (-exponent).toNat) (Nat.pow_pos (by decide))
      rw [split, ← scale, Nat.one_mul]
    · have sum : (-exponent).toNat = (-(exponent + k)).toNat + k := by omega
      have split : digits * 10 ^ k * unitsPerOne = digits * unitsPerOne * 10 ^ k := by ring
      rw [split, sum, Nat.pow_add, ofUnitsScale negative _ _ (Nat.pow_pos (by decide))]
  · have sum : (exponent + k).toNat = k + exponent.toNat := by omega
    rw [if_pos large, if_pos (by omega), sum, Nat.pow_add, Nat.mul_assoc digits]

theorem powBlocks {a b m p n k l e f : Nat} (block : a ^ m ≤ b ^ p) (rest : a ^ k ≤ b ^ l)
    (left : e = m * n + k) (right : f = p * n + l) : a ^ e ≤ b ^ f := by
  rw [left, right, Nat.pow_add, Nat.pow_mul, Nat.pow_add, Nat.pow_mul]
  exact Nat.mul_le_mul (Nat.pow_le_pow_left block n) rest

theorem twosAndFives {n m : Nat} (bound : 2 ^ n ≤ 10 ^ m) (k : Nat) :
    2 ^ (n + k) * 5 ^ k ≤ 10 ^ (m + k) := by
  rw [Nat.pow_add, Nat.mul_assoc, ← Nat.mul_pow, Nat.pow_add]
  exact Nat.mul_le_mul_right _ bound

theorem unitsBoundBelow : unitsBound * 5 ^ unitExponent ≤ 10 ^ (310 + unitExponent) := by
  have block : 2 ^ 93 ≤ 10 ^ 28 := by decide
  have rest : 2 ^ 1 ≤ 10 ^ 2 := by decide
  have power := powBlocks (n := 11) (e := 1024) (f := 310) block rest rfl rfl
  rw [unitsBound]
  exact twosAndFives power unitExponent

theorem tensBelow : 10 ^ (743 : Nat) ≤ 5 ^ unitExponent := by
  have block : 10 ^ 9 ≤ 5 ^ 13 := by decide
  have rest : 10 ^ 5 ≤ 5 ^ 8 := by decide
  exact powBlocks (n := 82) block rest rfl rfl

theorem exactReadsBack (m : Magnitude) : (exact m).toNumber false = .finite false m := by
  have tens : 10 ^ unitExponent = 5 ^ unitExponent * unitsPerOne := by
    rw [unitsPerOne, ← Nat.mul_pow]
  by_cases zero : m.units = 0
  · rw [← ofUnitsExact]
    simp [toNumber, exact, zero]
  have digits : 10 ^ (743 : Nat) ≤ m.units * 5 ^ unitExponent :=
    Nat.le_trans tensBelow (Nat.le_mul_of_pos_left _ (Nat.pos_of_ne_zero zero))
  have low : ¬ length (m.units * 5 ^ unitExponent) ≤ 743 := by
    rw [lengthLe (by decide)]
    generalize 10 ^ (743 : Nat) = bound at digits ⊢
    exact Nat.not_lt.mpr digits
  have high : length (m.units * 5 ^ unitExponent) ≤ 310 + unitExponent := by
    rw [lengthLe (by decide)]
    refine Nat.lt_of_lt_of_le ?_ unitsBoundBelow
    exact Nat.mul_lt_mul_of_pos_right m.representable.1 (Nat.pow_pos (by decide))
  have place : point (exact m) = length (m.units * 5 ^ unitExponent) - 1074 := rfl
  have exponent : unitExponent = 1074 := rfl
  have nonzero : (exact m).digits ≠ 0 := Nat.mul_ne_zero zero (Nat.pow_pos (by decide)).ne'
  have value : (exact m).digits * unitsPerOne = m.units * 10 ^ unitExponent := by
    rw [tens, ← Nat.mul_assoc]; rfl
  have negative : (exact m).exponent = -1074 := rfl
  rw [toNumber, if_neg (by omega), if_neg (by omega), if_neg (by omega), value]
  have scale := ofUnitsScale false m.units 1 (k := 10 ^ unitExponent) (Nat.pow_pos (by decide))
  rw [Nat.one_mul, ofUnitsExact] at scale
  exact scale

theorem shortestReadsBack (m : Magnitude) : (shortest m).toNumber false = .finite false m := by
  rcases shortestOrExact m with found | same
  · simpa [readsBack] using found
  · rw [same, exactReadsBack]

end SeqScript.Decimal
