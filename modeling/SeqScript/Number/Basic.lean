/-!
Binary floating-point numbers of double precision, exactly. A finite magnitude is a whole number
of units of 2^-1074, with at most 53 significant bits and below 2^1024. Nothing here goes through
a machine float, so every statement about a number is one about a natural number.
-/
namespace SeqScript

/- Powers of whole numbers are those of `Nat` itself, also where other powers are known. -/
instance (priority := 2000) natPower : Pow Nat Nat := instPowNat

def unitExponent : Nat := 1074

def unitsPerOne : Nat := 2 ^ unitExponent

def unitsBound : Nat := 2 ^ (1024 + unitExponent)

def Representable (units : Nat) : Prop := units < unitsBound ∧ 2 ^ (units.log2 - 52) ∣ units

instance (units : Nat) : Decidable (Representable units) := by unfold Representable; infer_instance

structure Magnitude where
  units : Nat
  representable : Representable units
  deriving DecidableEq, Repr

inductive Number where
  | nan
  | infinite (negative : Bool)
  | finite (negative : Bool) (magnitude : Magnitude)
  deriving DecidableEq, Repr

namespace Number

theorem unitsBoundPos : 0 < unitsBound := by
  unfold unitsBound
  generalize 1024 + unitExponent = e
  exact Nat.two_pow_pos e

theorem representableZero : Representable 0 := ⟨unitsBoundPos, by simp⟩

def zero : Number := .finite false ⟨0, representableZero⟩

instance : Inhabited Number := ⟨zero⟩

/- The nearest whole number to a quotient; of two equally near ones the even one. -/
def roundHalfEven (n d : Nat) : Nat :=
  let q := n / d
  let r := n % d
  if 2 * r < d then q else if d < 2 * r then q + 1 else q + q % 2

def roundUnits (n d : Nat) : Nat :=
  let e := (n / d).log2 - 52
  roundHalfEven n (d * 2 ^ e) * 2 ^ e

theorem roundHalfEvenLe (n d : Nat) : roundHalfEven n d ≤ n / d + 1 := by
  simp only [roundHalfEven]
  split
  · omega
  · split
    · omega
    · have := Nat.mod_lt (n / d) (y := 2) (by decide)
      omega

theorem dvdOfCofactor {k e : Nat} (h : k ≤ 2 ^ (53 : Nat)) : 2 ^ ((k * 2 ^ e).log2 - 52) ∣ k * 2 ^ e := by
  by_cases zero : k * 2 ^ e = 0
  · simp [zero]
  · rcases Nat.lt_or_eq_of_le h with small | full
    · have bound : (k * 2 ^ e).log2 < 53 + e := by
        rw [Nat.log2_lt zero, Nat.pow_add]
        exact Nat.mul_lt_mul_of_pos_right small (Nat.two_pow_pos e)
      exact Nat.dvd_trans (Nat.pow_dvd_pow 2 (by omega)) (Nat.dvd_mul_left _ _)
    · subst full
      rw [← Nat.pow_add, Nat.log2_two_pow]
      exact Nat.pow_dvd_pow 2 (by omega)

theorem quotientSmall (n d : Nat) : n / (d * 2 ^ ((n / d).log2 - 52)) < 2 ^ (53 : Nat) := by
  rw [← Nat.div_div_eq_div_mul]
  by_cases zero : n / d = 0
  · simp [zero]
  · rw [Nat.div_lt_iff_lt_mul (Nat.two_pow_pos _), ← Nat.pow_add, ← Nat.log2_lt zero]
    omega

theorem roundUnitsDvd (n d : Nat) : 2 ^ ((roundUnits n d).log2 - 52) ∣ roundUnits n d := by
  refine dvdOfCofactor ?_
  have := roundHalfEvenLe n (d * 2 ^ ((n / d).log2 - 52))
  have := quotientSmall n d
  omega

def ofUnits (negative : Bool) (n d : Nat) : Number :=
  if h : roundUnits n d < unitsBound then .finite negative ⟨roundUnits n d, h, roundUnitsDvd n d⟩
  else .infinite negative

def ofInt (i : Int) : Number := ofUnits (i < 0) (i.natAbs * unitsPerOne) 1

def ofNat (n : Nat) : Number := ofInt n

def one : Number := ofNat 1

def isNaN : Number → Bool
  | .nan => true
  | _ => false

def isZero : Number → Bool
  | .finite _ m => m.units == 0
  | _ => false

def toInt? : Number → Option Int
  | .finite negative m =>
    if unitsPerOne ∣ m.units then
      let n : Int := m.units / unitsPerOne
      some (if negative then -n else n)
    else none
  | _ => none

def isInteger (x : Number) : Bool := x.toInt?.isSome

def negate : Number → Number
  | .nan => .nan
  | .infinite s => .infinite (!s)
  | .finite s m => .finite (!s) m

def same (a b : Number) : Bool := (a.isZero && b.isZero) || (!a.isNaN && a == b)

theorem sameSymm (a b : Number) : same a b = same b a := by
  simp only [same]
  by_cases h : a = b
  · subst h; rfl
  · rw [beq_false_of_ne h, beq_false_of_ne (Ne.symm h), Bool.and_false, Bool.and_false, Bool.and_comm]

theorem sameRefl {a : Number} (h : a.isNaN = false) : same a a = true := by simp [same, h]

end Number

end SeqScript
