import SeqScript.Yaml.Tree

/-!
The data of a settings file. A tree is read as data if it is well formed: its indicators stand
where they belong, no tab is a margin, comments stand behind a space, the keys of a mapping stand
in one column, each in one line, and differ.
-/
namespace SeqScript.Yaml

open CodeUnit

structure Gap where
  tab : Option Nat
  atMargin : Bool
  hasSpace : Bool
  hasLineBreak : Bool
  indicator : Option Piece
  comma : Bool

structure GapRule where
  indicator : Option Kind
  inBracket : Bool
  tabs : Bool
  -- Whether the list begins in the margin of a line.
  atMargin : Bool
  indent : Nat

namespace Gap

def start (atMargin : Bool) : Gap := ⟨none, atMargin, atMargin, false, none, false⟩

def take? (r : GapRule) (g : Gap) (p : Piece) : Option Gap :=
  match p.kind with
  | .space =>
    some { g with
      hasSpace := true
      tab := if r.tabs ∧ p.source.contains (unit '\t') then some p.indent else g.tab }
  | .comment => if g.hasSpace then some { g with atMargin := false } else none
  | .lineBreak => some { g with atMargin := true, hasSpace := true, hasLineBreak := true }
  | kind =>
    if r.indicator = some kind then
      if g.indicator.isSome then none
      else
        some { g with indicator := some p, atMargin := kind == .dash, hasSpace := false }
    else if r.inBracket ∧ kind = .comma ∧ !g.comma then
      some { g with comma := true, atMargin := false, hasSpace := false }
    else none

def step? (r : GapRule) (g : Gap) (p : Piece) : Option Gap :=
  if g.tab.isSome ∧ g.atMargin ∧ p.kind ≠ .comment ∧ p.kind ≠ .lineBreak then none
  else take? r { g with tab := none } p

end Gap

namespace Node

def isBlock : Node → Bool
  | .mapping _ _ | .sequence _ _ => true
  | _ => false

def isMapping : Node → Bool
  | .mapping _ _ => true
  | _ => false

end Node

def gap? (r : GapRule) (pieces : List Piece) (next : Option Node) : Option Gap := do
  let g ← pieces.foldlM (Gap.step? r) (.start r.atMargin)
  match g.tab with
  | some indent =>
    if g.atMargin ∧ indent ≤ r.indent ∨ (next.map Node.isBlock).getD false then none else some g
  | none => some g

def mappingStart (indent : Nat) : GapRule := ⟨none, false, true, true, indent⟩

def mappingBetween (indent : Nat) (keyed : Bool) : GapRule :=
  ⟨some .colon, false, true, !keyed, indent⟩

def sequenceStart (indent : Nat) : GapRule := ⟨some .dash, false, true, true, indent⟩

def bracketStart : GapRule := ⟨none, true, false, false, 0⟩

def bracketBetween : GapRule := ⟨some .colon, true, false, false, 0⟩

def rootStart (root : Node) : GapRule :=
  let isBracket := match root with
    | .bracket _ _ _ _ => true
    | _ => false
  ⟨none, false, !isBracket, true, 0⟩

/- Trivia behind a leaf, in which a comment stands behind a space. -/
def areApart (hasSpace : Bool) : List Piece → Bool
  | [] => true
  | p :: rest =>
    match p.kind with
    | .space | .lineBreak => areApart true rest
    | .comment => hasSpace && areApart hasSpace rest
    | _ => false

def keyText : Scalar → Text
  | .none => []
  | s => s.plain

def leafScalar? : Node → Option Scalar
  | .scalar s p behind => if areApart false behind then scalar? s p.source else none
  | _ => none

def keyScalar? : Option Node → Option Scalar
  | none => some .none
  | some n => leafScalar? n

def hasLineBreak (source : Text) (behind : List Piece) : Bool :=
  source.contains newline || hasKind .lineBreak behind

def inOneLine : Option Node → Bool
  | some (.scalar _ p behind) => !hasLineBreak p.source behind
  | some _ => false
  | none => true

def isInColumn (indent : Nat) : Option Node → Bool
  | some (.scalar _ p _) => p.indent == indent
  | some _ => false
  | none => true

def keyReach : Nat := 1024

def isNear (key : Option Node) (colon : Piece) : Bool :=
  match key with
  | some (.scalar _ p _) => colon.offset ≤ p.offset + keyReach
  | _ => true

def mappingOf? (pairs : List (Scalar × Data)) : Option Data :=
  if (pairs.map Prod.fst).Pairwise fun a b => a.same b = false then
    some (.mapping (Bindings.ofPairs (pairs.map fun p => (keyText p.1, p.2))))
  else none

def mappingKey? (indent : Nat) (start : List Piece) (key : Option Node) (between : List Piece)
    (value : Option Node) : Option Scalar := do
  let _ ← gap? (mappingStart indent) start key
  let k ← keyScalar? key
  let g ← gap? (mappingBetween indent key.isSome) between value
  let colon ← g.indicator
  let inline := (value.map Node.isMapping).getD false && !g.hasLineBreak
  if isInColumn indent key ∧ inOneLine key ∧ !inline ∧ isNear key colon then some k else none

def isSeparated (isFirst : Bool) (g : Gap) : Bool := g.comma != isFirst

def bracketKey? (b : Bracket) (isFirst : Bool) (start : List Piece) (key : Option Node)
    (between : List Piece) (value : Option Node) : Option Scalar := do
  let g ← gap? bracketStart start key
  let k ← keyScalar? key
  let g' ← gap? bracketBetween between value
  let oneLine : Bool := match g'.indicator with
    | some colon =>
      inOneLine key && isNear key colon &&
        !hasKind .lineBreak (between.takeWhile fun p => p.kind != .colon)
    | none => inOneLine key
  let valueAllowed := value.isNone || g'.indicator.isSome && !(value.map Node.isBlock).getD false
  if isSeparated isFirst g ∧ valueAllowed ∧ (b = .curly ∨ oneLine) then some k else none

mutual

def Node.data? : Node → Option Data
  | .scalar s p behind => (leafScalar? (.scalar s p behind)).map .scalar
  | .mapping indent entries => do mappingOf? (← mappingPairs? indent entries)
  | .sequence indent entries => do return .sequence (← sequenceItems? indent entries)
  | .bracket b _ entries behind => do
    if !areApart false behind then none
    match b with
    | .square => return .sequence (← squareItems? true entries)
    | .curly => mappingOf? (← curlyPairs? true entries)

def mappingPairs? (indent : Nat) : List Entry → Option (List (Scalar × Data))
  | [] => some []
  | .bare start :: rest => do
    let _ ← gap? (mappingStart indent) start none
    mappingPairs? indent rest
  | .keyed start key between :: rest => do
    let k ← mappingKey? indent start key between none
    return (k, .none) :: (← mappingPairs? indent rest)
  | .pair start key between value :: rest => do
    let k ← mappingKey? indent start key between (some value)
    let d ← value.data?
    return (k, d) :: (← mappingPairs? indent rest)
  | .item _ _ :: _ => none

def sequenceItems? (indent : Nat) : List Entry → Option (List Data)
  | [] => some []
  | .bare start :: rest => do
    let g ← gap? (sequenceStart indent) start none
    let items ← sequenceItems? indent rest
    return if g.indicator.isSome then .none :: items else items
  | .item start value :: rest => do
    let g ← gap? (sequenceStart indent) start (some value)
    if g.indicator.isNone then none
    let d ← value.data?
    return d :: (← sequenceItems? indent rest)
  | _ :: _ => none

def squareItems? (isFirst : Bool) : List Entry → Option (List Data)
  | [] => some []
  | .bare start :: rest => do
    let g ← gap? bracketStart start none
    if isFirst && g.comma || !rest.isEmpty then none
    squareItems? false rest
  | .item start value :: rest => do
    let g ← gap? bracketStart start (some value)
    if !isSeparated isFirst g || value.isBlock then none
    let d ← value.data?
    return d :: (← squareItems? false rest)
  | .keyed start key between :: rest => do
    let k ← bracketKey? .square isFirst start key between none
    return .mapping [(keyText k, .none)] :: (← squareItems? false rest)
  | .pair start key between value :: rest => do
    let k ← bracketKey? .square isFirst start key between (some value)
    let d ← value.data?
    return .mapping [(keyText k, d)] :: (← squareItems? false rest)

def curlyPairs? (isFirst : Bool) : List Entry → Option (List (Scalar × Data))
  | [] => some []
  | .bare start :: rest => do
    let g ← gap? bracketStart start none
    if isFirst && g.comma || !rest.isEmpty then none
    curlyPairs? false rest
  | .keyed start key between :: rest => do
    let k ← bracketKey? .curly isFirst start key between none
    return (k, .none) :: (← curlyPairs? false rest)
  | .pair start key between value :: rest => do
    let k ← bracketKey? .curly isFirst start key between (some value)
    let d ← value.data?
    return (k, d) :: (← curlyPairs? false rest)
  | .item _ _ :: _ => none

end

def Tree.data? (t : Tree) : Option Data := do
  let _ ← gap? (rootStart t.root) t.start (some t.root)
  t.root.data?

def document (t : Text) : Option Data := do
  let pieces ← Piece.ofText? t
  if pieces.all Piece.isTrivia then some .none else (← Tree.ofPieces? pieces).data?

end SeqScript.Yaml
