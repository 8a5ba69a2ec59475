import SeqScript.Settings.Data

/-!
Scalars of a settings file: what a written scalar stands for. Quoted ones are strings; plain ones
may stand for nothing, a truth value, a number or a string. A scalar may go over several lines,
which are folded into one.
-/
namespace SeqScript.Yaml

open CodeUnit

def carriageReturn : CodeUnit := unit '\r'

def isBlank (u : CodeUnit) : Bool := u == unit ' ' || u == unit '\t'

def endsHere : Text → Bool
  | [] => true
  | u :: _ => isBlank u || u == newline || u == carriageReturn

def beginsBreak : Text → Bool
  | [] => false
  | u :: rest => u == newline || u == carriageReturn && rest.head? == some newline

def linesOf : Text → List Text
  | [] => [[]]
  | u :: rest =>
    match linesOf rest with
    | [] => [[u]]
    | l :: ls => if u = newline then [] :: l :: ls else (u :: l) :: ls

def dropBlanks (t : Text) : Text := t.dropWhile isBlank

def trimmedEnd (line : Text) : Text :=
  let back := line.reverse
  let back := if back.head? = some carriageReturn then back.drop 1 else back
  (back.dropWhile isBlank).reverse

/- What a line in the middle of a scalar adds to it, and how many lines below it go with it. A
line of blanks alone is empty only before the last line; elsewhere the next line belongs to it,
with its margin. One carriage return behind blanks counts as content. -/
def middleLine (line next : Text) (nextIsLast : Bool) : Text × Nat :=
  let body := dropBlanks line
  if body.length = line.length then (trimmedEnd body, 0)
  else if body = [] ∧ !nextIsLast then (newline :: trimmedEnd next, 1)
  else if body = [carriageReturn] then (body, 0)
  else (trimmedEnd body, 0)

def foldLines (separator : CodeUnit) (lines : List Text) : Text :=
  match lines with
  | [] => []
  | [last] => separator :: dropBlanks last
  | line :: next :: rest =>
    let (content, joined) := middleLine line next rest.isEmpty
    let more := (next :: rest).drop joined
    if content ≠ [] then separator :: content ++ foldLines (unit ' ') more
    else if separator = newline then separator :: foldLines newline more
    else foldLines newline more
termination_by lines.length
decreasing_by all_goals (simp only [List.length_cons, List.length_drop]; omega)

def fold (t : Text) : Text :=
  match linesOf t with
  | [] => []
  | [line] => line
  | first :: rest => trimmedEnd first ++ foldLines (unit ' ') rest

def number? (t : Text) : Option Number :=
  let (sign, t) := Numeral.splitSign t
  let (whole, t) := Numeral.splitDigits t
  let (fraction, t) := match t with
    | u :: rest => if u = unit '.' then Numeral.splitDigits rest else ([], t)
    | [] => ([], [])
  let (exponent, t) := Numeral.splitExponent t
  if t ≠ [] ∨ whole = [] ∧ fraction = [] then none
  else
    let point := if fraction = [] then [] else unit '.' :: fraction
    let x := (Numeral.mk whole point exponent).toNumber
    some (if sign = [unit '-'] then x.negate else x)

def digit? (base : Nat) (u : CodeUnit) : Option Nat :=
  let n :=
    if u.isDigit then u.digitValue
    else if unit 'a' ≤ u ∧ u ≤ unit 'f' then u.toNat - 'a'.toNat + 10
    else if unit 'A' ≤ u ∧ u ≤ unit 'F' then u.toNat - 'A'.toNat + 10
    else base
  if n < base then some n else none

def digits? (base : Nat) (t : Text) : Option Nat :=
  if t = [] then none
  else t.foldlM (fun n u => (digit? base u).map fun d => base * n + d) 0

def based? (t : Text) : Option Number :=
  if Text.startsWith (text "0o") t then (digits? 8 (t.drop 2)).map .ofNat
  else if Text.startsWith (text "0x") t then (digits? 16 (t.drop 2)).map .ofNat
  else none

def words : List (String × Scalar) := [
  ("", .none), ("~", .none), ("null", .none), ("Null", .none), ("NULL", .none),
  ("true", .bool true), ("True", .bool true), ("TRUE", .bool true),
  ("false", .bool false), ("False", .bool false), ("FALSE", .bool false),
  (".nan", .number .nan), (".NaN", .number .nan), (".NAN", .number .nan),
  (".inf", .number (.infinite false)), (".Inf", .number (.infinite false)),
  (".INF", .number (.infinite false)), ("+.inf", .number (.infinite false)),
  ("+.Inf", .number (.infinite false)), ("+.INF", .number (.infinite false)),
  ("-.inf", .number (.infinite true)), ("-.Inf", .number (.infinite true)),
  ("-.INF", .number (.infinite true))]

def plain (t : Text) : Scalar :=
  match words.find? fun w => text w.1 == t with
  | some (_, s) => s
  | none =>
    match based? t <|> number? t with
    | some x => .number x
    | none => .string t

def isReserved (u : CodeUnit) : Bool := (text "\t,%|>@\x60").contains u

def hexEscape (count : Nat) (t : Text) : Option (Text × Text) :=
  if (t.take count).length = count then do
    let n ← digits? 16 (t.take count)
    if n < 0x10000 then some ([n.toUInt16], t.drop count)
    else if n < 0x110000 then some (Text.ofChar (Char.ofNat n), t.drop count)
    else none
  else none

def shortEscapes : List (Char × Nat) := [
  ('0', 0), ('a', 7), ('b', 8), ('t', 9), ('n', 10), ('v', 11), ('f', 12), ('r', 13), ('e', 27),
  ('\t', 9), (' ', 0x20), ('"', 0x22), ('/', 0x2F), ('\\', 0x5C), ('N', 0x85), ('_', 0xA0),
  ('L', 0x2028), ('P', 0x2029)]

def escape : Text → Option (Text × Text)
  | [] => none
  | u :: rest =>
    if u = unit 'x' then hexEscape 2 rest
    else if u = unit 'u' then hexEscape 4 rest
    else if u = unit 'U' then hexEscape 8 rest
    else if u = newline then some ([], dropBlanks rest)
    else if beginsBreak (u :: rest) then some ([], dropBlanks (rest.drop 1))
    else (shortEscapes.find? fun e => unit e.1 == u).map fun e => ([e.2.toUInt16], rest)

def splitBreaks : Text → Text × Text
  | [] => ([], [])
  | u :: rest =>
    if u = newline then (u :: (splitBreaks rest).1, (splitBreaks rest).2)
    else if isBlank u || beginsBreak (u :: rest) then splitBreaks rest
    else ([], u :: rest)

theorem dropBlanksLength (t : Text) : (dropBlanks t).length ≤ t.length :=
  (List.dropWhile_sublist isBlank).length_le

theorem hexEscapeLength {count : Nat} {t v rest : Text} (h : hexEscape count t = some (v, rest)) :
    rest.length ≤ t.length := by
  unfold hexEscape at h
  split at h
  · obtain ⟨n, _, h⟩ := Option.bind_eq_some_iff.mp h
    split at h
    · cases h; simp
    · split at h
      · cases h; simp
      · contradiction
  · contradiction

theorem escapeLength {t v rest : Text} (h : escape t = some (v, rest)) :
    rest.length ≤ t.length := by
  cases t with
  | nil => contradiction
  | cons u t =>
    have below := Nat.le_succ t.length
    simp only [escape] at h
    split at h
    · exact Nat.le_trans (hexEscapeLength h) below
    split at h
    · exact Nat.le_trans (hexEscapeLength h) below
    split at h
    · exact Nat.le_trans (hexEscapeLength h) below
    split at h
    · cases h; exact Nat.le_trans (dropBlanksLength t) below
    split at h
    · cases h
      exact Nat.le_trans (dropBlanksLength _) (Nat.le_trans (by simp) below)
    · obtain ⟨e, _, eq⟩ := Option.map_eq_some_iff.mp h
      cases eq
      exact below

theorem splitBreaksLength (t : Text) : (splitBreaks t).2.length ≤ t.length := by
  induction t with
  | nil => simp [splitBreaks]
  | cons u rest ih =>
    simp only [splitBreaks]
    split
    · simp only [List.length_cons]; omega
    · split
      · simp only [List.length_cons]; omega
      · simp

/- What a text in double quotes stands for, from behind its first quote on; the last unit is the
other quote. Blanks before a line break are dropped, and so are those behind it. -/
def doubleQuoted (t : Text) : Option Text :=
  match t with
  | [] => some []
  | [_] => some []
  | u :: v :: rest =>
    if u = newline then
      let breaks := (splitBreaks (v :: rest)).1
      have := splitBreaksLength (v :: rest)
      (doubleQuoted (splitBreaks (v :: rest)).2).map
        ((if breaks = [] then [unit ' '] else breaks) ++ ·)
    else if beginsBreak (u :: v :: rest) then doubleQuoted (v :: rest)
    else if u = backslash then
      match h : escape (v :: rest) with
      | none => none
      | some (w, more) =>
        have := escapeLength h
        (doubleQuoted more).map (w ++ ·)
    else if isBlank u then
      let more := dropBlanks (v :: rest)
      have := dropBlanksLength (v :: rest)
      let blanks := (v :: rest).takeWhile isBlank
      (doubleQuoted more).map (if beginsBreak more then id else (u :: blanks ++ ·))
    else (doubleQuoted (v :: rest)).map (u :: ·)
termination_by t.length
decreasing_by all_goals (simp only [List.length_cons] at *; omega)

def undoubled : Text → Text
  | [] => []
  | [u] => [u]
  | u :: v :: rest =>
    if u = apostrophe ∧ v = apostrophe then u :: undoubled rest else u :: undoubled (v :: rest)

inductive Style where
  | plain | single | double
  deriving DecidableEq, Repr

def isClosed (mark : CodeUnit) (t : Text) : Bool := 1 < t.length && t.getLast? == some mark

def scalar? (style : Style) (t : Text) : Option Scalar :=
  match style with
  | .plain => if (t.head?.map isReserved).getD false then none else some (plain (fold t))
  | .single =>
    if isClosed apostrophe t then some (.string (undoubled (fold (t.drop 1).dropLast))) else none
  | .double => if isClosed quote t then (doubleQuoted (t.drop 1)).map .string else none

end SeqScript.Yaml
