import SeqScript.Number.Basic
import SeqScript.Text.Basic

/-!
Decimal texts of numbers. A decimal is a whole number of powers of ten. Reading rounds it to the
nearest number. Writing takes the fewest digits, at most seventeen, with which the number is read
back, and the nearest such decimal; a number is always read back from what is written for it.
-/
namespace SeqScript

structure Decimal where
  digits : Nat
  exponent : Int
  deriving DecidableEq, Repr

namespace Decimal

def length (n : Nat) : Nat := (Nat.toDigits 10 n).length

def point (d : Decimal) : Int := length d.digits + d.exponent

def toNumber (negative : Bool) (d : Decimal) : Number :=
  if d.digits = 0 ∨ d.point < -330 then Number.ofUnits negative 0 1
  else if 310 < d.point then .infinite negative
  else if 0 ≤ d.exponent then
    Number.ofUnits negative (d.digits * 10 ^ d.exponent.toNat * unitsPerOne) 1
  else Number.ofUnits negative (d.digits * unitsPerOne) (10 ^ (-d.exponent).toNat)

def exact (m : Magnitude) : Decimal := ⟨m.units * 5 ^ unitExponent, -unitExponent⟩

/- The two neighbours of a decimal that drop its last places, the nearer one first; of two
equally near ones the even one. -/
def neighbours (d : Decimal) (places : Nat) : List Decimal :=
  let cut := 10 ^ places
  let low := d.digits / cut
  let rest := d.digits % cut
  let near (n : Nat) : Decimal := ⟨n, d.exponent + places⟩
  if 2 * rest < cut then [near low, near (low + 1)]
  else if cut < 2 * rest then [near (low + 1), near low]
  else if low % 2 = 0 then [near low, near (low + 1)]
  else [near (low + 1), near low]

def readsBack (m : Magnitude) (d : Decimal) : Bool := d.toNumber false == .finite false m

def candidates (m : Magnitude) : List Decimal :=
  let whole := exact m
  let size := length whole.digits
  (List.range' 1 17).flatMap fun places => whole.neighbours (size - places)

def shortest (m : Magnitude) : Decimal := ((candidates m).find? (readsBack m)).getD (exact m)

theorem shortestOrExact (m : Magnitude) :
    readsBack m (shortest m) = true ∨ shortest m = exact m := by
  unfold shortest
  generalize candidates m = all
  cases h : all.find? (readsBack m) with
  | none => exact .inr rfl
  | some d => exact .inl (List.find?_some h)

def zeros (n : Nat) : Text := List.replicate n (unit '0')

def significant (d : Decimal) : Text :=
  ((Text.ofNat d.digits).reverse.dropWhile (· == unit '0')).reverse

/- Positional while the point stands within the first 21 places or at most six zeros follow it;
otherwise one digit before the point and an exponent. -/
def layout (d : Decimal) : Text :=
  let ds := d.significant
  let n := d.point
  let size := ds.length
  if size ≤ n ∧ n ≤ 21 then ds ++ zeros (n.toNat - size)
  else if 0 < n ∧ n ≤ 21 then ds.take n.toNat ++ unit '.' :: ds.drop n.toNat
  else if -6 < n ∧ n ≤ 0 then text "0." ++ zeros (-n).toNat ++ ds
  else
    let mantissa := if size ≤ 1 then ds else ds.take 1 ++ unit '.' :: ds.drop 1
    let e := n - 1
    mantissa ++ unit 'e' :: (if e < 0 then unit '-' else unit '+') :: Text.ofNat e.natAbs

end Decimal

def Number.toText : Number → Text
  | .nan => text "NaN"
  | .infinite negative => text (if negative then "-Infinity" else "Infinity")
  | .finite negative m =>
    if m.units = 0 then text "0"
    else
      let digits := (Decimal.shortest m).layout
      if negative then unit '-' :: digits else digits

end SeqScript
