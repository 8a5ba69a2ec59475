/-!
Text is a list of 16-bit code units. Lengths, positions and order count code units, and a
surrogate without its partner is a code unit like any other. Only `codePoints` looks at pairs.
-/
namespace SeqScript

abbrev CodeUnit := UInt16

abbrev Text := List CodeUnit

def unit (c : Char) : CodeUnit := c.toNat.toUInt16

namespace CodeUnit

def newline : CodeUnit := unit '\n'
def quote : CodeUnit := unit '"'
def apostrophe : CodeUnit := unit '\''
def backslash : CodeUnit := unit '\\'

def isHighSurrogate (u : CodeUnit) : Bool := 0xD800 ≤ u && u < 0xDC00

def isLowSurrogate (u : CodeUnit) : Bool := 0xDC00 ≤ u && u < 0xE000

def isDigit (u : CodeUnit) : Bool := unit '0' ≤ u && u ≤ unit '9'

def digitValue (u : CodeUnit) : Nat := u.toNat - '0'.toNat

end CodeUnit

namespace Text

def ofChar (c : Char) : Text :=
  if c.toNat < 0x10000 then [c.toNat.toUInt16]
  else
    let v := c.toNat - 0x10000
    [(0xD800 + v / 0x400).toUInt16, (0xDC00 + v % 0x400).toUInt16]

def ofString (s : String) : Text := s.toList.flatMap ofChar

/- Pairs of surrogates stay together; every other unit stands alone. -/
def codePoints : Text → List Text
  | [] => []
  | [u] => [[u]]
  | u :: v :: rest =>
    if u.isHighSurrogate && v.isLowSurrogate then [u, v] :: codePoints rest
    else [u] :: codePoints (v :: rest)

def charOf : Text → Char
  | [u] => if u.isHighSurrogate || u.isLowSurrogate then '\uFFFD' else Char.ofNat u.toNat
  | [u, v] => Char.ofNat (0x10000 + (u.toNat - 0xD800) * 0x400 + (v.toNat - 0xDC00))
  | _ => '\uFFFD'

def toString (t : Text) : String := String.ofList (t.codePoints.map charOf)

def le (a b : Text) : Bool := !decide (b < a)

def join (separator : Text) (parts : List Text) : Text := List.intercalate separator parts

def startsWith (start t : Text) : Bool := start.isPrefixOf t

def ofNat (n : Nat) : Text := (Nat.toDigits 10 n).map unit

def digitsValue (t : Text) : Nat := t.foldl (fun n u => 10 * n + u.digitValue) 0

end Text

def text (s : String) : Text := Text.ofString s

end SeqScript
