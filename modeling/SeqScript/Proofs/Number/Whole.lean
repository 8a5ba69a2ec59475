import Mathlib.Data.Nat.Factorization.Basic
import SeqScript.Proofs.Number.Rounding

/-! Whole numbers. Below two to the 53rd no two of them are the same number, so that no decimal with
fewer digits reads back: such a number is written with its own digits. -/
namespace SeqScript

namespace Number

theorem roundHalfEvenGe (n d : Nat) : n / d ≤ roundHalfEven n d := by
  simp only [roundHalfEven]
  split <;> first | exact Nat.le_refl _ | (split <;> omega)

theorem roundUnitsGe {units k : Nat} (large : 2 ^ k ≤ units) : 2 ^ k ≤ roundUnits units 1 := by
  have some : units ≠ 0 := Nat.pos_iff_ne_zero.mp (Nat.lt_of_lt_of_le (Nat.two_pow_pos k) large)
  simp only [roundUnits, Nat.div_one, Nat.one_mul]
  generalize drop : units.log2 - 52 = e
  have below : e ≤ units.log2 := by omega
  have top : 2 ^ units.log2 ≤ units := Nat.log2_self_le some
  have quotient : 2 ^ (units.log2 - e) ≤ units / 2 ^ e := by
    rw [Nat.le_div_iff_mul_le (Nat.two_pow_pos e), ← Nat.pow_add, Nat.sub_add_cancel below]
    exact top
  calc 2 ^ k ≤ 2 ^ units.log2 := Nat.pow_le_pow_right (by decide) ((Nat.le_log2 some).mpr large)
    _ = 2 ^ (units.log2 - e) * 2 ^ e := by rw [← Nat.pow_add, Nat.sub_add_cancel below]
    _ ≤ units / 2 ^ e * 2 ^ e := Nat.mul_le_mul_right _ quotient
    _ ≤ roundHalfEven units (2 ^ e) * 2 ^ e :=
      Nat.mul_le_mul_right _ (roundHalfEvenGe units (2 ^ e))

theorem representableWhole {n : Nat} (small : n < 2 ^ (53 : Nat)) :
    Representable (n * unitsPerOne) := by
  refine ⟨?_, dvdOfCofactor small.le⟩
  have bits (e : Nat) : n * 2 ^ e < 2 ^ (1024 + e) := by
    have more : 2 ^ (53 + e) ≤ 2 ^ (1024 + e) := Nat.pow_le_pow_right (by decide) (by omega)
    refine Nat.lt_of_lt_of_le ?_ more
    rw [Nat.pow_add]
    exact Nat.mul_lt_mul_of_pos_right small (Nat.two_pow_pos e)
  exact bits unitExponent

theorem ofNatUnits (n : Nat) : ofNat n = ofUnits false (n * unitsPerOne) 1 := by
  have positive : decide ((n : Int) < 0) = false := by simp
  rw [ofNat, ofInt, positive, Int.natAbs_natCast]

theorem ofNatExact {n : Nat} {m : Magnitude} (units : m.units = n * unitsPerOne) :
    ofNat n = .finite false m := by
  rw [ofNatUnits, ← units]
  exact ofUnitsExact false m

theorem ofNatInjective {a n : Nat} (small : n < 2 ^ (53 : Nat)) (same : ofNat a = ofNat n) :
    a = n := by
  have unit : 0 < unitsPerOne := Nat.two_pow_pos unitExponent
  have whole : ofNat n = .finite false ⟨n * unitsPerOne, representableWhole small⟩ := ofNatExact rfl
  rw [whole, ofNatUnits, ofUnits] at same
  split at same
  · have units : roundUnits (a * unitsPerOne) 1 = n * unitsPerOne :=
      congrArg Magnitude.units (Number.finite.inj same).2
    rcases Nat.lt_or_ge a (2 ^ (53 : Nat)) with inside | outside
    · rw [roundUnitsExact (representableWhole inside).2] at units
      exact Nat.eq_of_mul_eq_mul_right unit units
    · have large : 2 ^ (53 + unitExponent) ≤ a * unitsPerOne := by
        rw [unitsPerOne, Nat.pow_add]
        exact Nat.mul_le_mul_right _ outside
      have rounded := roundUnitsGe large
      rw [units, Nat.pow_add] at rounded
      exact absurd (Nat.le_of_mul_le_mul_right rounded unit) (Nat.not_le.mpr small)
  · cases same

end Number

namespace Decimal
open Number

theorem wholeNumber {digits k : Nat} (short : length digits + k ≤ 310) :
    toNumber false ⟨digits, k⟩ = Number.ofNat (digits * 10 ^ k) := by
  rw [ofNatUnits]
  by_cases zero : digits = 0
  · simp [toNumber, zero]
  · have place : point ⟨digits, k⟩ = length digits + k := rfl
    rw [toNumber, if_neg (by rw [place]; simp only [zero, false_or]; omega),
      if_neg (by omega), if_pos (by simp)]
    simp

theorem neighboursMem {d near : Decimal} {places : Nat} (member : near ∈ d.neighbours places) :
    ∃ digits, digits ≤ d.digits / 10 ^ places + 1 ∧ near = ⟨digits, d.exponent + places⟩ := by
  have either : near = ⟨d.digits / 10 ^ places, d.exponent + places⟩ ∨
      near = ⟨d.digits / 10 ^ places + 1, d.exponent + places⟩ := by
    simp only [neighbours] at member
    split at member
    · simpa using member
    split at member
    · simpa [or_comm] using member
    split at member
    · simpa using member
    · simpa [or_comm] using member
  rcases either with rfl | rfl
  · exact ⟨_, Nat.le_succ _, rfl⟩
  · exact ⟨_, Nat.le_refl _, rfl⟩

theorem neighboursExact (digits places : Nat) (exponent : Int) :
    ∃ others, neighbours ⟨digits * 10 ^ places, exponent⟩ places =
      ⟨digits, exponent + places⟩ :: others := by
  have positive : 0 < 10 ^ places := Nat.pow_pos (by decide)
  simp only [neighbours, Nat.mul_mod_left, Nat.mul_zero, positive, if_true,
    Nat.mul_div_cancel _ positive]
  exact ⟨_, rfl⟩

theorem ofNatShift {n : Nat} (positive : 0 < n) (k : Nat) :
    Text.ofNat (n * 10 ^ k) = Text.ofNat n ++ zeros k := by
  induction k with
  | zero => simp [zeros]
  | succ k ih =>
    have some : 0 < n * 10 ^ k := Nat.mul_pos positive (Nat.pow_pos (by decide))
    have shape : n * 10 ^ (k + 1) = n * 10 ^ k * 10 := by rw [Nat.pow_succ, Nat.mul_assoc]
    have zero : unit (Nat.digitChar 0) = unit '0' := rfl
    rw [shape, Text.ofNatEq, if_neg (by omega), Nat.mul_div_cancel _ (by decide),
      Nat.mul_mod_left, ih, zero]
    simp [zeros, List.replicate_succ']

theorem significantWhole {digits : Nat} (odd : ¬ 10 ∣ digits) (exponent : Int) :
    significant ⟨digits, exponent⟩ = Text.ofNat digits := by
  have last : unit (digits % 10).digitChar ≠ unit '0' := fun zero =>
    odd (Nat.dvd_of_mod_eq_zero
      ((Text.digitUnit (digits % 10) (Nat.mod_lt _ (by decide))).2.2 zero))
  rw [significant, Text.ofNatEq]
  simp [last]

theorem foundFirst {α : Type} {f : Nat → List α} {q : α → Bool} {start count i : Nat} {a : α}
    {others : List α} (inside : start ≤ i ∧ i < start + count)
    (before : ∀ p, start ≤ p → p < i → ∀ b ∈ f p, q b = false) (here : f i = a :: others)
    (found : q a = true) : ((List.range' start count).flatMap f).find? q = some a := by
  induction count generalizing start with
  | zero => omega
  | succ count ih =>
    rw [List.range'_succ, List.flatMap_cons, List.find?_append]
    by_cases same : start = i
    · rw [same, here, List.find?_cons_of_pos found]
      rfl
    · have none : (f start).find? q = none :=
        List.find?_eq_none.mpr fun b member => by
          simp [before start (Nat.le_refl _) (by omega) b member]
      rw [none, Option.none_or]
      exact ih (by omega) fun p later => before p (by omega)

theorem shortWhole {n : Nat} (small : n ≤ 2 ^ (53 : Nat)) : length n ≤ 16 :=
  (lengthLe (by decide)).mpr (Nat.lt_of_le_of_lt small (by decide))

theorem exactWhole {n : Nat} {m : Magnitude} (units : m.units = n * unitsPerOne) :
    exact m = ⟨n * 10 ^ unitExponent, -unitExponent⟩ := by
  have tens : 10 ^ unitExponent = unitsPerOne * 5 ^ unitExponent := by
    rw [unitsPerOne, ← Nat.mul_pow]
  rw [exact, units, tens, Nat.mul_assoc]

section

variable {digits k : Nat} {m : Magnitude} (odd : ¬ 10 ∣ digits)
  (small : digits * 10 ^ k < 2 ^ (53 : Nat)) (units : m.units = digits * 10 ^ k * unitsPerOne)

include odd in
theorem digitsSome : 0 < digits := Nat.pos_of_ne_zero fun zero => odd (zero ▸ Nat.dvd_zero 10)

include odd small in
theorem placesFew : length digits + k ≤ 16 := by
  rw [← lengthShift (digitsSome odd)]
  exact shortWhole small.le

include odd units in
theorem exactLength : length (exact m).digits = length digits + k + unitExponent := by
  have some : 0 < digits * 10 ^ k := Nat.mul_pos (digitsSome odd) (Nat.pow_pos (by decide))
  rw [exactWhole units, lengthShift some, lengthShift (digitsSome odd)]

include odd small units in
theorem fewerUnread {p : Nat} (fewer : p < length digits) {near : Decimal}
    (member : near ∈ (exact m).neighbours (length (exact m).digits - p)) :
    readsBack m near = false := by
  have few := placesFew odd small
  have size := exactLength odd units
  have places : length (exact m).digits - p = length digits - p + k + unitExponent := by omega
  obtain ⟨other, bound, rfl⟩ := neighboursMem member
  rw [places, exactWhole units] at bound ⊢
  have exponent : -(unitExponent : Int) + (length digits - p + k + unitExponent : Nat) =
      (length digits - p + k : Nat) := by omega
  have little : other ≤ 2 ^ (53 : Nat) := by
    rw [Nat.pow_add, Nat.mul_div_mul_right _ _ (Nat.pow_pos (by decide))] at bound
    have quotient := Nat.div_le_self (digits * 10 ^ k) (10 ^ (length digits - p + k))
    omega
  have short := shortWhole little
  dsimp only
  rw [exponent, readsBack, wholeNumber (by omega), ← ofNatExact units, beq_eq_false_iff_ne]
  intro same
  have equal := ofNatInjective small same
  rw [Nat.pow_add, ← Nat.mul_assoc] at equal
  have cancelled := Nat.eq_of_mul_eq_mul_right (Nat.pow_pos (by decide)) equal
  exact odd (cancelled ▸ Dvd.dvd.mul_left (dvd_pow_self 10 (by omega)) other)

include odd small units in
theorem shortestWhole : shortest m = ⟨digits, k⟩ := by
  have few := placesFew odd small
  have size := exactLength odd units
  have nonempty : 0 < length digits := by
    rw [lengthEq]
    exact List.length_pos_iff.mpr (Text.ofNatNonempty digits)
  have back : readsBack m ⟨digits, k⟩ = true := by
    rw [readsBack, wholeNumber (by omega), ofNatExact units]
    exact beq_self_eq_true _
  have places : length (exact m).digits - length digits = k + unitExponent := by omega
  have exponent : -(unitExponent : Int) + (k + unitExponent : Nat) = k := by omega
  obtain ⟨others, near⟩ := neighboursExact digits (k + unitExponent) (-unitExponent)
  have here : (exact m).neighbours (length (exact m).digits - length digits) =
      ⟨digits, k⟩ :: others := by
    rw [places, exactWhole units, Nat.mul_assoc, ← Nat.pow_add, near, exponent]
  have found : (candidates m).find? (readsBack m) = some ⟨digits, k⟩ := by
    unfold candidates
    dsimp only
    exact foundFirst (f := fun p => (exact m).neighbours (length (exact m).digits - p))
      ⟨nonempty, by omega⟩ (fun p _ fewer _ => fewerUnread odd small units fewer) here back
  rw [shortest, found]
  rfl

include odd in
theorem layoutWhole (few : length digits + k ≤ 21) :
    layout ⟨digits, k⟩ = Text.ofNat (digits * 10 ^ k) := by
  have place : point ⟨digits, k⟩ = length digits + k := rfl
  have size := lengthEq digits
  have filled : ((length digits : Int) + k).toNat - (Text.ofNat digits).length = k := by omega
  rw [ofNatShift (digitsSome odd)]
  simp only [layout, significantWhole odd, place]
  rw [if_pos ⟨by omega, by omega⟩, filled]

end

end Decimal

theorem Number.wholeText {n : Nat} (small : n < 2 ^ (53 : Nat)) :
    (ofNat n).toText = Text.ofNat n := by
  obtain ⟨m, units⟩ : ∃ m : Magnitude, m.units = n * unitsPerOne :=
    ⟨⟨_, representableWhole small⟩, rfl⟩
  rw [ofNatExact units]
  by_cases zero : n = 0
  · subst zero
    rw [toText, if_pos (units.trans (Nat.zero_mul unitsPerOne))]
    decide
  · have some : m.units ≠ 0 := units ▸ Nat.mul_ne_zero zero (Nat.two_pow_pos unitExponent).ne'
    obtain ⟨k, digits, odd, shape⟩ := Nat.exists_eq_pow_mul_and_not_dvd zero 10 (by decide)
    rw [Nat.mul_comm] at shape
    subst shape
    have few := Decimal.placesFew odd small
    simp only [toText, some, if_false, Bool.false_eq_true, Decimal.shortestWhole odd small units]
    exact Decimal.layoutWhole odd (by omega)

end SeqScript
