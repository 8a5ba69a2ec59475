import SeqScript.Yaml.Scalar

/-!
The pieces of a settings file: spaces, line breaks, comments, indicators and scalars. A cursor goes
over the text. Outside brackets it knows the column that a line must reach to go on with a scalar;
inside brackets every line must reach it. Directives, marks of documents, tags, anchors, aliases,
block scalars and marked keys are not read: a text with one of them has no pieces.
-/
namespace SeqScript.Yaml

open CodeUnit

inductive Bracket where
  | square | curly
  deriving DecidableEq, Repr

inductive Kind where
  | space
  | lineBreak
  | comment
  | dash
  | colon
  | comma
  | opening (b : Bracket)
  | closing (b : Bracket)
  | scalar (s : Style)
  deriving DecidableEq, Repr

namespace Kind

def isTrivia : Kind → Bool
  | .space | .lineBreak | .comment => true
  | _ => false

def ofFlowUnit? (u : CodeUnit) : Option Kind :=
  if u = unit '[' then some (.opening .square)
  else if u = unit ']' then some (.closing .square)
  else if u = unit '\x7b' then some (.opening .curly)
  else if u = unit '\x7d' then some (.closing .curly)
  else if u = unit ',' then some .comma
  else none

end Kind

def isComment (u : CodeUnit) : Bool := u == unit '#'

def isFlowUnit (u : CodeUnit) : Bool := (Kind.ofFlowUnit? u).isSome

def separates (inFlow : Bool) : Text → Bool
  | [] => true
  | u :: rest => endsHere (u :: rest) || inFlow && isFlowUnit u

def beginsMark (t : Text) : Bool :=
  (Text.startsWith (text "---") t || Text.startsWith (text "...") t) && endsHere (t.drop 3)

def isSpace (u : CodeUnit) : Bool := u == unit ' '

def continues (floor : Nat) (t : Text) : Bool :=
  if floor = 0 then !beginsMark t
  else beginsBreak (t.dropWhile isSpace) || floor ≤ (t.takeWhile isSpace).length

def splitLine : Text → Text × Text
  | [] => ([], [])
  | u :: rest =>
    if beginsBreak (u :: rest) then ([], u :: rest)
    else (u :: (splitLine rest).1, (splitLine rest).2)

theorem splitLineAppend (t : Text) : (splitLine t).1 ++ (splitLine t).2 = t := by
  induction t with
  | nil => rfl
  | cons u rest ih => simp only [splitLine]; split <;> simp [ih]

def stopsPlain (inFlow : Bool) : Text → Bool
  | [] => false
  | u :: _ => isComment u || inFlow && isFlowUnit u

/- A unit before a split text; blanks belong to a scalar only if more of it follows. -/
def before (u : CodeUnit) (split : Text × Text) (rest : Text) : Text × Text :=
  if split.1 = [] then ([], u :: rest) else (u :: split.1, split.2)

def splitPlain (inFlow : Bool) (floor : Nat) : Text → Text × Text
  | [] => ([], [])
  | u :: rest =>
    let split := splitPlain inFlow floor rest
    if u = unit ':' then
      if separates inFlow rest then ([], u :: rest) else (u :: split.1, split.2)
    else if u = newline then
      if stopsPlain inFlow rest || !continues floor rest then ([], u :: rest)
      else before u split rest
    else if beginsBreak (u :: rest) then before u split rest
    else if isBlank u then
      if stopsPlain inFlow rest then ([], u :: rest) else before u split rest
    else if u = carriageReturn ∧ stopsPlain inFlow rest then ([u], rest)
    else if inFlow && isFlowUnit u then ([], u :: rest)
    else (u :: split.1, split.2)

theorem beforeAppend (u : CodeUnit) {split : Text × Text} {rest : Text}
    (h : split.1 ++ split.2 = rest) :
    (before u split rest).1 ++ (before u split rest).2 = u :: rest := by
  unfold before
  split
  · rfl
  · simp [h]

theorem splitPlainAppend (inFlow : Bool) (floor : Nat) (t : Text) :
    (splitPlain inFlow floor t).1 ++ (splitPlain inFlow floor t).2 = t := by
  induction t with
  | nil => rfl
  | cons u rest ih =>
    have blank := beforeAppend u ih
    simp only [splitPlain]
    repeat' split
    all_goals simp_all

def splitSingle : Text → Option (Text × Text)
  | [] => none
  | [u] => if u = apostrophe then some ([u], []) else none
  | u :: v :: rest =>
    if u ≠ apostrophe then (splitSingle (v :: rest)).map fun (w, r) => (u :: w, r)
    else if v ≠ apostrophe then some ([u], v :: rest)
    else (splitSingle rest).map fun (w, r) => (u :: v :: w, r)

def splitDouble : Text → Option (Text × Text)
  | [] => none
  | [u] => if u = quote then some ([u], []) else none
  | u :: v :: rest =>
    if u = quote then some ([u], v :: rest)
    else if u = backslash then (splitDouble rest).map fun (w, r) => (u :: v :: w, r)
    else (splitDouble (v :: rest)).map fun (w, r) => (u :: w, r)

def cutUnindented (floor : Nat) : Text → Text → Text × Text
  | [], rest => ([], rest)
  | u :: inside, rest =>
    let unindented :=
      if u = newline then !continues floor (inside ++ rest)
      else beginsBreak (u :: inside) && !continues floor (inside.drop 1 ++ rest)
    if unindented then ([], u :: inside ++ rest)
    else
      let (w, r) := cutUnindented floor inside rest
      (u :: w, r)

theorem cutUnindentedAppend (floor : Nat) (inside rest : Text) :
    (cutUnindented floor inside rest).1 ++ (cutUnindented floor inside rest).2 =
      inside ++ rest := by
  induction inside with
  | nil => rfl
  | cons u inside ih =>
    simp only [cutUnindented]
    repeat' split
    all_goals simp [ih]

def splitQuoted (style : Style) (floor : Nat) : Text → Text × Text
  | [] => ([], [])
  | u :: rest =>
    match if style = .single then splitSingle rest else splitDouble rest with
    | none => (u :: rest, [])
    | some (inside, rest) =>
      let (w, r) := cutUnindented floor inside rest
      (u :: w, r)

def quoteStyle? (u : CodeUnit) : Option Style :=
  if u = quote then some .double else if u = apostrophe then some .single else none

inductive Place where
  | margin
  | leading
  | inline
  | flow (depth : Nat) (fresh : Bool)
  deriving DecidableEq, Repr

/- A place in a text, with the column that the lines of a scalar must reach, the column of the
place as far as it counts, and whether the last thing inside brackets was a quoted scalar or a
bracket, behind which a colon needs no space. -/
structure Cursor where
  place : Place
  floor : Nat
  column : Nat
  keyEnded : Bool
  rest : Text

abbrev Token := Kind × Text

def spaces (t : Text) : List Token := if t = [] then [] else [(.space, t)]

namespace Cursor

def start (t : Text) : Cursor := ⟨.margin, 0, 0, false, t⟩

def take (c : Cursor) (kind : Kind) (count : Nat) (place : Place) : List Token × Cursor :=
  ([(kind, c.rest.take count)], { c with place, rest := c.rest.drop count })

def takeSplit (c : Cursor) (kind : Kind) (split : Text × Text) (place : Place) :
    List Token × Cursor :=
  ([(kind, split.1)], { c with place, rest := split.2 })

def takeBreak (c : Cursor) (place : Place) : List Token × Cursor :=
  c.take .lineBreak (if c.rest.head? = some newline then 1 else 2) place

def takeBlanks (c : Cursor) (place : Place) : List Token × Cursor :=
  c.take .space (c.rest.takeWhile isBlank).length place

def inlineStep (c : Cursor) : Option (List Token × Cursor) :=
  match c.rest with
  | [] => some ([], c)
  | u :: rest =>
    if isBlank u then some (c.takeBlanks .inline)
    else if beginsBreak c.rest then some (c.takeBreak .margin)
    else if isComment u then some (c.takeSplit .comment (splitLine c.rest) .inline)
    else if (text "-:?").contains u && endsHere rest then
      if u = unit '?' then none
      else
        some (Cursor.take { c with floor := c.column + 1 }
          (if u = unit '-' then .dash else .colon) 1 .inline)
    else if (text "&!*|>").contains u then none
    else
      match quoteStyle? u, Kind.ofFlowUnit? u with
      | some s, _ => some (c.takeSplit (.scalar s) (splitQuoted s c.floor c.rest) .inline)
      | none, some (.opening b) =>
        some (Cursor.take { c with keyEnded := false } (.opening b) 1 (.flow 1 false))
      | none, some (.closing _) => none
      | none, _ => some (c.takeSplit (.scalar .plain) (splitPlain false c.floor c.rest) .inline)

def leadingStep (c : Cursor) : Option (List Token × Cursor) :=
  match c.rest with
  | [] => some ([], c)
  | u :: rest =>
    if (u == unit '-' || u == unit ':') && endsHere rest then
      let blanks := rest.takeWhile isBlank
      some (((if u = unit '-' then .dash else .colon), [u]) :: spaces blanks,
        { c with
          place := .leading, floor := c.column + 1, column := c.column + 1 + blanks.length,
          rest := rest.dropWhile isBlank })
    else c.inlineStep

def marginStep (c : Cursor) : Option (List Token × Cursor) :=
  if beginsMark c.rest then none
  else
    let margin := c.rest.takeWhile isSpace
    let rest := c.rest.dropWhile isSpace
    let column := margin.length
    let floor := if column < c.floor ∧ !endsHere (rest.drop 1) then column else c.floor
    (leadingStep { c with place := .leading, column, floor, rest }).map
      fun (tokens, next) => (spaces margin ++ tokens, next)

/- Whether a line inside brackets starts too far left. The outermost bracket may close one column
before that. -/
def isUnindented (c : Cursor) (depth : Nat) (u : CodeUnit) : Bool :=
  c.column < c.floor && !isComment u &&
    !(c.column + 1 == c.floor && depth == 1 && (u == unit ']' || u == unit '\x7d'))

def flowStep (c : Cursor) (depth : Nat) (u : CodeUnit) (rest : Text) :
    Option (List Token × Cursor) :=
  let here := Place.flow depth false
  let plain := { c with keyEnded := false }
  let key := { c with keyEnded := true }
  if isComment u then some (c.takeSplit .comment (splitLine c.rest) here)
  else if (text "-?").contains u && separates true rest then none
  else if u = unit ':' ∧ (c.keyEnded || separates true rest) then
    some (plain.take .colon 1 here)
  else if (text "&!*").contains u then none
  else
    match quoteStyle? u, Kind.ofFlowUnit? u with
    | some s, _ => some (key.takeSplit (.scalar s) (splitQuoted s c.floor c.rest) here)
    | none, some (.opening b) => some (plain.take (.opening b) 1 (.flow (depth + 1) false))
    | none, some (.closing b) =>
      some (key.take (.closing b) 1 (if depth ≤ 1 then .inline else .flow (depth - 1) false))
    | none, some kind => some (plain.take kind 1 here)
    | none, none => some (plain.takeSplit (.scalar .plain) (splitPlain true c.floor c.rest) here)

def bracketStep (c : Cursor) (depth : Nat) (fresh : Bool) : Option (List Token × Cursor) :=
  match c.rest with
  | [] => some ([], c)
  | u :: rest =>
    if isBlank u then some (c.takeBlanks (.flow depth fresh))
    else if beginsBreak c.rest then
      let (tokens, next) := c.takeBreak (.flow depth true)
      let margin := next.rest.takeWhile isSpace
      some (tokens ++ spaces margin,
        { next with column := margin.length, rest := next.rest.dropWhile isSpace })
    else if fresh ∧ (c.isUnindented depth u ∨ c.column = 0 ∧ beginsMark c.rest) then none
    else c.flowStep depth u rest

def step (c : Cursor) : Option (List Token × Cursor) :=
  match c.place with
  | .margin => c.marginStep
  | .leading => c.leadingStep
  | .inline => c.inlineStep
  | .flow depth fresh => c.bracketStep depth fresh

def tokens (c : Cursor) : Option (List Token) :=
  if c.rest = [] then some []
  else
    match c.step with
    | none => none
    | some (found, next) =>
      if next.rest.length < c.rest.length then next.tokens.map (found ++ ·) else none
termination_by c.rest.length

end Cursor

/- A token with its offset, and with the width of the margin and indicators before it in its
line. -/
structure Piece where
  kind : Kind
  source : Text
  indent : Nat
  offset : Nat
  deriving DecidableEq, Repr

namespace Piece

def isTrivia (p : Piece) : Bool := p.kind.isTrivia

def placed (leading : Bool) (indent offset : Nat) : List Token → List Piece
  | [] => []
  | (kind, source) :: rest =>
    let wide := if leading then indent + source.length else indent
    let offset' := offset + source.length
    ⟨kind, source, indent, offset⟩ ::
      match kind with
      | .lineBreak => placed true 0 offset' rest
      | .space =>
        placed leading (if source.head? = some (unit ' ') then wide else indent) offset' rest
      | .dash | .colon => placed leading wide offset' rest
      | _ => placed false indent offset' rest

def byteOrderMark : CodeUnit := 0xFEFF

def ofText? (t : Text) : Option (List Piece) :=
  if t.head? = some byteOrderMark then
    (Cursor.start (t.drop 1)).tokens.map (placed false 0 0)
  else (Cursor.start t).tokens.map (placed true 0 0)

end Piece

end SeqScript.Yaml
