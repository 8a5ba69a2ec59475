import SeqScript.Number.Decimal

/-!
Numerals: digits with an optional fraction and an optional exponent. Reading takes the longest
numeral at the head of a text, so a point or an exponent mark that no digit completes stays in
the rest.
-/
namespace SeqScript

structure Numeral where
  whole : Text
  fraction : Text
  exponent : Text
  deriving DecidableEq, Repr

namespace Numeral

open CodeUnit (isDigit)

def isMark (u : CodeUnit) : Bool := u == unit 'e' || u == unit 'E'

def isSign (u : CodeUnit) : Bool := u == unit '+' || u == unit '-'

def beginsWithDigit : Text → Bool
  | u :: _ => u.isDigit
  | [] => false

def splitDigits (t : Text) : Text × Text := (t.takeWhile isDigit, t.dropWhile isDigit)

def splitFraction : Text → Text × Text
  | u :: rest =>
    if u == unit '.' && beginsWithDigit rest then
      (u :: (splitDigits rest).1, (splitDigits rest).2)
    else ([], u :: rest)
  | [] => ([], [])

def splitSign : Text → Text × Text
  | u :: rest => if isSign u then ([u], rest) else ([], u :: rest)
  | [] => ([], [])

def splitExponent : Text → Text × Text
  | u :: rest =>
    if isMark u && beginsWithDigit (splitSign rest).2 then
      (u :: ((splitSign rest).1 ++ (splitDigits (splitSign rest).2).1),
        (splitDigits (splitSign rest).2).2)
    else ([], u :: rest)
  | [] => ([], [])

def read (t : Text) : Numeral × Text :=
  let (whole, t) := splitDigits t
  let (fraction, t) := splitFraction t
  let (exponent, t) := splitExponent t
  (⟨whole, fraction, exponent⟩, t)

def written (n : Numeral) : Text := n.whole ++ n.fraction ++ n.exponent

theorem splitDigitsAppend (t : Text) : (splitDigits t).1 ++ (splitDigits t).2 = t :=
  List.takeWhile_append_dropWhile

theorem splitFractionAppend (t : Text) : (splitFraction t).1 ++ (splitFraction t).2 = t := by
  cases t with
  | nil => rfl
  | cons u rest =>
    simp only [splitFraction]
    split
    · simp [splitDigitsAppend]
    · rfl

theorem splitSignAppend (t : Text) : (splitSign t).1 ++ (splitSign t).2 = t := by
  cases t with
  | nil => rfl
  | cons u rest => simp only [splitSign]; split <;> rfl

theorem splitExponentAppend (t : Text) : (splitExponent t).1 ++ (splitExponent t).2 = t := by
  cases t with
  | nil => rfl
  | cons u rest =>
    simp only [splitExponent]
    split
    · simp [List.append_assoc, splitDigitsAppend, splitSignAppend]
    · rfl

theorem readAppend (t : Text) : (read t).1.written ++ (read t).2 = t := by
  simp only [read, written, List.append_assoc, splitExponentAppend, splitFractionAppend,
    splitDigitsAppend]

def exponentValue (n : Numeral) : Int :=
  let (sign, digits) := splitSign (n.exponent.drop 1)
  let value : Int := Text.digitsValue digits
  if sign = [unit '-'] then -value else value

def decimal (n : Numeral) : Decimal :=
  ⟨Text.digitsValue (n.whole ++ n.fraction.drop 1),
    n.exponentValue - (n.fraction.drop 1).length⟩

def toNumber (n : Numeral) : Number := n.decimal.toNumber false

end Numeral

namespace Number

def ofNumeral (t : Text) : Number := (Numeral.read t).1.toNumber

def ofText (t : Text) : Number :=
  if t = text "NaN" then .nan
  else
    let (sign, size) := Numeral.splitSign t
    let x := if size = text "Infinity" then .infinite false else ofNumeral size
    if sign = [unit '-'] then x.negate else x

end Number

end SeqScript
