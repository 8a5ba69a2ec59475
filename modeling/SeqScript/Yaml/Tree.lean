import SeqScript.Yaml.Piece

/-!
The tree of a settings file, built from its pieces. Scalars and closed brackets are leaves, which
keep the trivia behind them. What is still open is a list of frames, innermost first. A frame takes
a piece, becomes a leaf of the frame around it, or refuses the piece. The tree knows where every
piece stands; which trees are well formed is not decided here.
-/
namespace SeqScript.Yaml

mutual

inductive Node where
  | scalar (style : Style) (piece : Piece) (behind : List Piece)
  | bracket (b : Bracket) (piece : Piece) (entries : List Entry) (behind : List Piece)
  | mapping (indent : Nat) (entries : List Entry)
  | sequence (indent : Nat) (entries : List Entry)

inductive Entry where
  | bare (start : List Piece)
  | keyed (start : List Piece) (key : Option Node) (between : List Piece)
  | pair (start : List Piece) (key : Option Node) (between : List Piece) (value : Node)
  | item (start : List Piece) (value : Node)

end

def hasKind (k : Kind) (pieces : List Piece) : Bool := pieces.any fun p => p.kind == k

namespace Node

def behind? : Node → Option (List Piece)
  | .scalar _ _ behind | .bracket _ _ _ behind => if behind = [] then none else some behind
  | _ => none

def addBehind (more : List Piece) : Node → Node
  | .scalar s p behind => .scalar s p (behind ++ more)
  | .bracket b p entries behind => .bracket b p entries (behind ++ more)
  | n => n

def dropBehind : Node → Node
  | .scalar s p _ => .scalar s p []
  | .bracket b p entries _ => .bracket b p entries []
  | n => n

end Node

namespace Entry

def value? : Entry → Option Node
  | .pair _ _ _ v | .item _ v => some v
  | _ => none

def mapValue (f : Node → Node) : Entry → Entry
  | .pair start key between v => .pair start key between (f v)
  | .item start v => .item start (f v)
  | e => e

def isKeyed : Entry → Bool
  | .keyed _ _ _ | .pair _ _ _ _ => true
  | _ => false

def trivia? (indent : Nat) : Entry → Option (List Piece)
  | .bare start =>
    let outside := indent = 0 ∨ start.all fun p => p.kind ≠ .comment || p.indent < indent
    if start ≠ [] ∧ start.all Piece.isTrivia ∧ outside then some start else none
  | _ => none

def withoutColon (e : Entry) : Entry :=
  match e with
  | .keyed start (some n) between =>
    if hasKind .colon between then e else .item start (n.addBehind between)
  | e => e

def extend? (more : List Piece) (e : Entry) : Option Entry :=
  match e.value?.bind Node.behind? with
  | some _ => some (e.mapValue (Node.addBehind more))
  | none => none

def splitMargin (indent : Nat) (between : List Piece) : List Piece × List Piece :=
  let isMargin (p : Piece) : Bool :=
    p.kind == .space || p.kind == .lineBreak || p.kind == .comment && p.indent ≤ indent
  let isBreak (p : Piece) : Bool := p.kind == .lineBreak
  let before := between.length - (between.reverse.takeWhile isMargin).length
  let margin := between.drop before
  let first := margin.findIdx isBreak + 1
  between.splitAt (before + first + (margin.drop first).findIdx isBreak)

/- When a key has no value, what lies in the margin behind it comes before the next entry. -/
def splitKeyed (indent : Nat) (e : Entry) : Entry × List Piece :=
  match e with
  | .keyed start key between =>
    let (between, after) := splitMargin indent between
    (.keyed start key between, after)
  | e => (e, [])

def endComment? (p : Piece) (e : Entry) : Option Entry :=
  match e.value?.bind Node.behind? with
  | some behind =>
    if (behind.getLast?.map Piece.kind) = some .comment then e.extend? [p] else none
  | none => none

end Entry

/- A collection that is not complete, with its last entry first, or a leaf behind which trivia
may follow. Mappings and sequences have a last entry. -/
inductive Frame where
  | mapping (indent : Nat) (last : Entry) (earlier : List Entry)
  | sequence (indent : Nat) (last : Entry) (earlier : List Entry)
  | bracket (b : Bracket) (piece : Piece) (entries : List Entry)
  | leaf (n : Node)

namespace Frame

/- The entries of a mapping or sequence in order. Trivia at its end go to the frame around it,
if no comment among them stands inside the margin of the collection. -/
def released (indent : Nat) (last : Entry) (earlier : List Entry) : List Entry × List Piece :=
  match last.trivia? indent with
  | some trivia => (earlier.reverse, trivia)
  | none => ((last :: earlier).reverse, [])

def close? : Frame → Option (Node × List Piece)
  | .mapping indent last earlier =>
    let (entries, trivia) := released indent last earlier
    some (.mapping indent entries, trivia)
  | .sequence indent last earlier =>
    let (entries, trivia) := released indent last earlier
    some (.sequence indent entries, trivia)
  | .bracket _ _ _ => none
  | .leaf n => some (n, [])

def withTrivia (e : Entry) (trivia : List Piece) (earlier : List Entry) : Entry × List Entry :=
  if trivia = [] then (e, earlier) else (.bare trivia, e :: earlier)

def receive? (n : Node) (trivia : List Piece) : Frame → Option (Frame × Bool)
  | .mapping indent last earlier =>
    match last with
    | .bare start => some (.mapping indent (.keyed start (some n) []) earlier, true)
    | .keyed start key between =>
      let (last, earlier) := withTrivia (.pair start key between n) trivia earlier
      some (.mapping indent last earlier, false)
    | _ => some (.mapping indent (.keyed [] (some n) []) (last :: earlier), true)
  | .sequence indent last earlier =>
    let (last, earlier) := match last with
      | .bare start => withTrivia (.item start n) trivia earlier
      | _ => withTrivia (.item [] n) trivia (last :: earlier)
    some (.sequence indent last earlier, false)
  | .bracket b piece entries =>
    match entries with
    | .bare start :: earlier =>
      some (.bracket b piece (.keyed start (some n) [] :: earlier), false)
    | .keyed start key between :: earlier =>
      some (.bracket b piece (.pair start key between n :: earlier), false)
    | entries => some (.bracket b piece (.keyed [] (some n) [] :: entries), false)
  | .leaf _ => none

end Frame

inductive Reaction where
  | taken (frames : List Frame) (keyLine : Bool)
  -- The piece is taken, and the frame ends with it.
  | ended (f : Frame)
  | passed
  | refused

namespace Frame

def ofPiece? (p : Piece) : Option Frame :=
  match p.kind with
  | .scalar s => some (.leaf (.scalar s p []))
  | .opening b => some (.bracket b p [])
  | .dash => some (.sequence p.indent (.bare [p]) [])
  | .colon => some (.mapping p.indent (.keyed [] none [p]) [])
  | _ => none

def nest (outer : Frame) (p : Piece) (keyLine : Bool) : Reaction :=
  match ofPiece? p with
  | some inner => .taken [inner, outer] (keyLine || p.kind == .colon)
  | none => .passed

def isBracket : Frame → Bool
  | .bracket _ _ _ => true
  | _ => false

def ofKey (indent : Nat) (n : Node) (colon : Piece) : Frame :=
  .mapping indent (.keyed [] (some n.dropBehind) (n.behind?.getD [] ++ [colon])) []

def leafEnd (n : Node) (p : Piece) (keyLine : Bool) : Reaction :=
  match p.kind with
  | .colon | .comma | .closing _ => .passed
  | .lineBreak => .ended (.leaf (n.addBehind [p]))
  | .space | .comment => .taken [.leaf (n.addBehind [p])] keyLine
  | _ => .refused

def onLeaf (n : Node) (p : Piece) (outer : Option Frame) (keyLine : Bool) : Reaction :=
  let inBracket := (outer.map isBracket).getD false
  match n, p.kind with
  | .scalar _ piece _, .colon =>
    if inBracket then .refused else .taken [ofKey piece.indent n p] true
  | .bracket _ piece _ _, .colon =>
    match outer with
    | some (.mapping indent _ _) =>
      if indent = piece.indent then .passed else .taken [ofKey piece.indent n p] true
    | _ => if inBracket then .passed else .taken [ofKey piece.indent n p] true
  | .bracket _ _ _ _, .lineBreak =>
    match outer with
    | some (.mapping _ last _) => if last.isKeyed then leafEnd n p keyLine else .passed
    | _ => leafEnd n p keyLine
  | _, _ => leafEnd n p keyLine

def indentedComment? (indent : Nat) (p : Piece) (start : List Piece) (earlier : List Entry) :
    Option (Entry × List Entry) :=
  match earlier with
  | e :: more =>
    let alone := start.all fun q => q.kind == .lineBreak || q.kind == .space
    if p.kind = .comment ∧ indent < p.indent ∧ alone then
      (e.extend? (start ++ [p])).map (·, more)
    else none
  | [] => none

def addTrivia (indent : Nat) (p : Piece) (last : Entry) (earlier : List Entry) :
    Entry × List Entry :=
  match last with
  | .bare start => (indentedComment? indent p start earlier).getD (.bare (start ++ [p]), earlier)
  | .keyed start key between => (.keyed start key (between ++ [p]), earlier)
  | _ =>
    match if p.kind = .lineBreak then last.endComment? p else none with
    | some last => (last, earlier)
    | none => (.bare [p], last :: earlier)

def onMappingContent (indent : Nat) (last : Entry) (earlier : List Entry) (p : Piece)
    (keyLine : Bool) : Reaction :=
  let aligned := !keyLine && p.indent == indent
  let (last, start) := if aligned && p.kind != .dash then last.splitKeyed indent else (last, [])
  let keep (e : Entry) := Reaction.taken [.mapping indent e earlier] true
  let add (e : Entry) := Reaction.taken [.mapping indent e (last :: earlier)] true
  let inside := nest (.mapping indent last earlier) p
  match p.kind, last with
  | .colon, .bare before => keep (.keyed before none [p])
  | .colon, .keyed before key between =>
    if aligned then add (.keyed start none [p])
    else if hasKind .colon between then inside true
    else keep (.keyed before key (between ++ [p]))
  | .colon, _ => add (.keyed start none [p])
  | .scalar s, .bare before => keep (.keyed before (some (.scalar s p [])) [])
  | .scalar s, .keyed _ _ _ =>
    if aligned then add (.keyed start (some (.scalar s p [])) []) else inside keyLine
  | .scalar s, _ => add (.keyed start (some (.scalar s p [])) [])
  | .dash, .keyed _ _ between =>
    if hasKind .lineBreak between then inside keyLine else .refused
  | .dash, _ => .refused
  | _, _ =>
    if aligned then nest (.mapping indent (.bare start) (last :: earlier)) p keyLine
    else inside keyLine

def onMapping (indent : Nat) (last : Entry) (earlier : List Entry) (p : Piece) (keyLine : Bool) :
    Reaction :=
  if p.isTrivia then
    let (last, earlier) := addTrivia indent p last earlier
    .taken [.mapping indent last earlier] (keyLine && p.kind != .lineBreak)
  else if p.indent < indent then .passed
  else onMappingContent indent last earlier p keyLine

def onSequence (indent : Nat) (last : Entry) (earlier : List Entry) (p : Piece) (keyLine : Bool) :
    Reaction :=
  if p.isTrivia then
    let (last, earlier) := addTrivia indent p last earlier
    .taken [.sequence indent last earlier] (keyLine && p.kind != .lineBreak)
  else if p.kind = .dash ∧ p.indent = indent then
    match last with
    | .bare start =>
      if hasKind .dash start then .taken [.sequence indent (.bare [p]) (last :: earlier)] keyLine
      else .taken [.sequence indent (.bare (start ++ [p])) earlier] keyLine
    | _ => .taken [.sequence indent (.bare [p]) (last :: earlier)] keyLine
  else if indent < p.indent then nest (.sequence indent last earlier) p keyLine
  else .passed

def onBracket (b : Bracket) (piece : Piece) (entries : List Entry) (p : Piece) (keyLine : Bool) :
    Reaction :=
  let taken entries := Reaction.taken [.bracket b piece entries] keyLine
  match p.kind, entries with
  | .comma, .bare start :: earlier => taken (.bare (start ++ [p]) :: earlier)
  | .comma, _ => taken (.bare [p] :: entries)
  | .colon, .bare start :: earlier => taken (.keyed start none [p] :: earlier)
  | .colon, .keyed start key between :: earlier =>
    taken (.keyed start key (between ++ [p]) :: earlier)
  | .colon, _ => taken (.keyed [] none [p] :: entries)
  | .scalar s, .bare start :: earlier =>
    taken (.keyed start (some (.scalar s p [])) [] :: earlier)
  | .scalar _, .keyed _ _ _ :: _ => nest (.bracket b piece entries) p keyLine
  | .scalar s, _ => taken (.keyed [] (some (.scalar s p [])) [] :: entries)
  | .closing b', _ =>
    if b' = b then
      let entries := if b = .square then entries.map Entry.withoutColon else entries
      .taken [.leaf (.bracket b piece entries.reverse [])] keyLine
    else .refused
  | .opening _, _ => nest (.bracket b piece entries) p keyLine
  | .dash, _ => .refused
  | _, .bare start :: earlier => taken (.bare (start ++ [p]) :: earlier)
  | _, .keyed start key between :: earlier => taken (.keyed start key (between ++ [p]) :: earlier)
  | _, _ => taken (.bare [p] :: entries)

def react (f : Frame) (p : Piece) (outer : Option Frame) (keyLine : Bool) : Reaction :=
  match f with
  | .mapping indent last earlier => onMapping indent last earlier p keyLine
  | .sequence indent last earlier => onSequence indent last earlier p keyLine
  | .bracket b piece entries => onBracket b piece entries p keyLine
  | .leaf n => onLeaf n p outer keyLine

end Frame

structure Builder where
  start : List Piece
  root : Option Node
  frames : List Frame
  keyLine : Bool

structure Tree where
  start : List Piece
  root : Node

namespace Builder

def empty : Builder := ⟨[], none, [], false⟩

def endFrame (b : Builder) (f : Frame) (outer : List Frame) : Option Builder := do
  let (n, trivia) ← f.close?
  match outer with
  | [] => some { b with root := some n, frames := [], keyLine := false }
  | g :: outer =>
    let (g, isKey) ← g.receive? n trivia
    some { b with frames := g :: outer, keyLine := isKey }

/- Gives a piece to a frame, and to the frames around it when the frame ends before it. -/
def give (b : Builder) (p : Piece) (keyLine : Bool) (f : Frame) : List Frame → Option Builder
  | [] =>
    match f.react p none keyLine with
    | .taken frames keyLine => some { b with frames, keyLine }
    | .ended f => b.endFrame f []
    | _ => none
  | g :: outer =>
    match f.react p (some g) keyLine with
    | .taken frames keyLine => some { b with frames := frames ++ g :: outer, keyLine }
    | .ended f => b.endFrame f (g :: outer)
    | .passed => do
      let (n, trivia) ← f.close?
      let (g, isKey) ← g.receive? n trivia
      b.give p (keyLine || isKey) g outer
    | .refused => none

def step (b : Builder) (p : Piece) : Option Builder :=
  match b.frames, b.root with
  | f :: outer, _ => b.give p b.keyLine f outer
  | [], some _ => if p.isTrivia then some b else none
  | [], none =>
    if p.isTrivia then some { b with start := b.start ++ [p] }
    else (Frame.ofPiece? p).map fun f => { b with frames := [f], keyLine := p.kind == .colon }

def finish? (f : Frame) : List Frame → Option Node
  | [] => f.close?.map Prod.fst
  | g :: outer => do
    let (n, trivia) ← f.close?
    let (g, _) ← g.receive? n trivia
    finish? g outer

def tree? (b : Builder) : Option Tree :=
  match b.frames, b.root with
  | f :: outer, _ => (finish? f outer).map (⟨b.start, ·⟩)
  | [], root => root.map (⟨b.start, ·⟩)

end Builder

def Tree.ofPieces? (pieces : List Piece) : Option Tree :=
  (pieces.foldlM Builder.step .empty).bind Builder.tree?

end SeqScript.Yaml
