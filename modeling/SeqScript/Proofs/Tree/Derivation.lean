import SeqScript.Proofs.Tree.Grammar

/-! The grammar of scripts with its derivations as data: which production covers which tokens in
front of a rest. No list of tokens has two derivations, so a list denotes at most one tree. -/
namespace SeqScript.Parser

inductive Symbol where
  | script
  | lines
  | statement | expr | primary
  | subscripts
  | items
  | moreItems
  | lastComma
  | newlines

/-- What a phrase denotes: of subscripts the indices, of items the expressions and whether the last
of them has no comma behind it, of a last comma whether it is there. -/
def Symbol.Meaning : Symbol → Type
  | .script | .lines => List Statement
  | .statement => Statement
  | .expr | .primary => Expr
  | .subscripts | .moreItems => List Expr
  | .items => List Expr × Bool
  | .lastComma => Bool
  | .newlines => Unit

def NoCall (ts : List Token) : Prop := ∀ t ∈ ts.head?, t.kind ≠ .openParen

inductive Derivation : Symbol → List Token → List Token → Type where
  | blank {ts us : List Token} {e : Token} (before : Derivation .newlines ts (e :: us))
      (stop : e.kind = .endOfInput) : Derivation .script ts us
  | script {ts us vs ws rest : List Token} {e : Token} (before : Derivation .newlines ts us)
      (first : Derivation .statement us vs) (others : Derivation .lines vs ws)
      (behind : Derivation .newlines ws (e :: rest)) (stop : e.kind = .endOfInput) :
      Derivation .script ts rest
  | noLine {ts : List Token} : Derivation .lines ts ts
  | line {n : Token} {ts us vs rest : List Token} (separator : n.kind = .newline)
      (before : Derivation .newlines ts us) (first : Derivation .statement us vs)
      (others : Derivation .lines vs rest) : Derivation .lines (n :: ts) rest
  | assignment {n a : Token} {ts rest : List Token} (target : n.kind = .identifier)
      (sign : a.kind = .assign) (assigned : Derivation .expr ts rest) :
      Derivation .statement (n :: a :: ts) rest
  | expression {ts rest : List Token} (inner : Derivation .expr ts rest) :
      Derivation .statement ts rest
  | unary {t : Token} {op : UnaryOp} {ts rest : List Token} (operator : operatorOf t.kind = some op)
      (operand : Derivation .expr ts rest) : Derivation .expr (t :: ts) rest
  | value {ts us rest : List Token} (inner : Derivation .primary ts us)
      (behind : Derivation .subscripts us rest) : Derivation .expr ts rest
  | noSubscript {ts : List Token} : Derivation .subscripts ts ts
  | subscript {o c : Token} {ts us vs ws rest : List Token} (opener : o.kind = .openBracket)
      (before : Derivation .newlines ts us) (index : Derivation .expr us vs)
      (behind : Derivation .newlines vs (c :: ws)) (closer : c.kind = .closeBracket)
      (others : Derivation .subscripts ws rest) : Derivation .subscripts (o :: ts) rest
  | scalar {t : Token} {v : Scalar} {rest : List Token} (single : scalarOf t = some v) :
      Derivation .primary (t :: rest) rest
  | list {o c : Token} {ts rest : List Token} (opener : o.kind = .openBracket)
      (inner : Derivation .items ts (c :: rest)) (closer : c.kind = .closeBracket) :
      Derivation .primary (o :: ts) rest
  | group {o c : Token} {ts rest : List Token} (opener : o.kind = .openParen)
      (inner : Derivation .items ts (c :: rest)) (closer : c.kind = .closeParen) :
      Derivation .primary (o :: ts) rest
  | call {n o c : Token} {ts rest : List Token} (callee : n.kind = .identifier)
      (opener : o.kind = .openParen) (inner : Derivation .items ts (c :: rest))
      (closer : c.kind = .closeParen) : Derivation .primary (n :: o :: ts) rest
  | name {n : Token} {rest : List Token} (kind : n.kind = .identifier) (apart : NoCall rest) :
      Derivation .primary (n :: rest) rest
  | noItem {ts rest : List Token} (before : Derivation .newlines ts rest) : Derivation .items ts rest
  | items {ts us vs ws xs rest : List Token} (before : Derivation .newlines ts us)
      (first : Derivation .expr us vs) (behind : Derivation .newlines vs ws)
      (others : Derivation .moreItems ws xs) (last : Derivation .lastComma xs rest) :
      Derivation .items ts rest
  | noMore {ts : List Token} : Derivation .moreItems ts ts
  | more {c : Token} {ts us vs ws rest : List Token} (separator : c.kind = .comma)
      (before : Derivation .newlines ts us) (item : Derivation .expr us vs)
      (behind : Derivation .newlines vs ws) (others : Derivation .moreItems ws rest) :
      Derivation .moreItems (c :: ts) rest
  | noComma {ts : List Token} : Derivation .lastComma ts ts
  | comma {c : Token} {ts rest : List Token} (kind : c.kind = .comma)
      (behind : Derivation .newlines ts rest) : Derivation .lastComma (c :: ts) rest
  | noNewline {ts : List Token} : Derivation .newlines ts ts
  | newline {n : Token} {ts rest : List Token} (kind : n.kind = .newline)
      (others : Derivation .newlines ts rest) : Derivation .newlines (n :: ts) rest

def Opening.denotes : Opening → List Expr × Bool → Expr
  | .list, (es, _) => .sequence .list (es.map some) .synthetic
  | .group, ([only], true) => only
  | .group, (es, _) => .sequence .tuple (es.map some) .synthetic
  | .call callee, (es, _) => .call callee es .synthetic

namespace Derivation

def denotes {s : Symbol} {ts rest : List Token} : Derivation s ts rest → s.Meaning
  | blank _ _ => ([] : List Statement)
  | script _ first others _ _ => (first.denotes :: others.denotes : List Statement)
  | noLine => ([] : List Statement)
  | line _ _ first others => (first.denotes :: others.denotes : List Statement)
  | @assignment n _ _ _ _ _ assigned =>
    Statement.assignment n.value assigned.denotes .synthetic
  | expression inner => Statement.expression inner.denotes .synthetic
  | @unary _ op _ _ _ operand => Expr.unary op operand.denotes .synthetic
  | value inner behind =>
    List.foldl (fun e i => Expr.subscript e i .synthetic) inner.denotes behind.denotes
  | noSubscript => ([] : List Expr)
  | subscript _ _ index _ _ others => (index.denotes :: others.denotes : List Expr)
  | @scalar _ v _ _ => Expr.literal v .synthetic
  | list _ inner _ => Opening.list.denotes inner.denotes
  | group _ inner _ => Opening.group.denotes inner.denotes
  | @call n _ _ _ _ _ _ inner _ => (Opening.call n.value).denotes inner.denotes
  | @name n _ _ _ => Expr.name n.value .synthetic
  | noItem _ => (([], false) : List Expr × Bool)
  | items _ first _ others last =>
    ((first.denotes :: others.denotes, !last.denotes) : List Expr × Bool)
  | noMore => ([] : List Expr)
  | more _ _ item _ others => (item.denotes :: others.denotes : List Expr)
  | noComma => false
  | comma _ _ => true
  | noNewline => ()
  | newline _ _ => ()

end Derivation

def Starts (ts : List Token) : Prop := ∃ t us, ts = t :: us ∧ begins t.kind = true

def Stops (ts : List Token) : Prop := ∃ t us, ts = t :: us ∧ begins t.kind = false ∧ t.kind ≠ .assign

def Closed (ts : List Token) : Prop :=
  ∃ t us, ts = t :: us ∧ (t.kind = .closeBracket ∨ t.kind = .closeParen)

def NoNewline (ts : List Token) : Prop := ∀ t ∈ ts.head?, t.kind ≠ .newline

def Follows : Symbol → List Token → Prop
  | .script, _ | .primary, _ => True
  | .lines, ts => ∃ e us, Nonempty (Derivation .newlines ts (e :: us)) ∧ e.kind = .endOfInput
  | .statement, ts | .expr, ts | .subscripts, ts => Stops ts
  | .items, ts | .lastComma, ts => Closed ts
  | .moreItems, ts => ∃ us, Nonempty (Derivation .lastComma ts us) ∧ Closed us
  | .newlines, ts => NoNewline ts

theorem stopsAt {t : Token} (stop : begins t.kind = false ∧ t.kind ≠ .assign) (ts : List Token) :
    Stops (t :: ts) := ⟨t, ts, rfl, stop⟩

theorem closedAt {t : Token} (closer : t.kind = .closeBracket ∨ t.kind = .closeParen)
    (ts : List Token) : Closed (t :: ts) := ⟨t, ts, rfl, closer⟩

theorem Starts.noNewline {ts : List Token} (starts : Starts ts) : NoNewline ts := by
  obtain ⟨t, us, rfl, first⟩ := starts
  intro u head kind
  cases Option.some.inj head
  simp [kind, begins] at first

theorem Starts.notStops {ts : List Token} (starts : Starts ts) (stops : Stops ts) : False := by
  obtain ⟨t, us, rfl, first⟩ := starts
  obtain ⟨u, vs, same, last, _⟩ := stops
  cases same
  rw [first] at last
  cases last

theorem Closed.stops {ts : List Token} (closed : Closed ts) : Stops ts := by
  obtain ⟨t, us, rfl, kind | kind⟩ := closed
  · exact stopsAt (by simp [kind, begins]) us
  · exact stopsAt (by simp [kind, begins]) us

theorem Closed.noNewline {ts : List Token} (closed : Closed ts) : NoNewline ts := by
  obtain ⟨t, us, rfl, kind | kind⟩ := closed <;> simp [NoNewline, kind]

theorem Closed.noComma {c : Token} {ts : List Token} (closed : Closed (c :: ts))
    (kind : c.kind = .comma) : False := by
  obtain ⟨t, us, same, closer⟩ := closed
  cases same
  simp [kind] at closer

theorem stopsAtEnd {e : Token} (stop : e.kind = .endOfInput) (us : List Token) :
    Stops (e :: us) ∧ NoNewline (e :: us) :=
  ⟨stopsAt (by simp [stop, begins]) us, by simp [NoNewline, stop]⟩

theorem scalarBegins {t : Token} {v : Scalar} (single : scalarOf t = some v) :
    begins t.kind = true := by
  cases kind : t.kind <;> simp [kind, scalarOf] at single <;> rfl

theorem operatorBegins {t : Token} {op : UnaryOp} (operator : operatorOf t.kind = some op) :
    begins t.kind = true := by
  cases kind : t.kind <;> simp [kind, operatorOf] at operator <;> rfl

namespace Derivation

theorem startsExpr {ts rest : List Token} (d : Derivation .expr ts rest) : Starts ts := by
  cases d with
  | unary operator => exact ⟨_, _, rfl, operatorBegins operator⟩
  | value inner behind =>
    cases inner with
    | scalar single => exact ⟨_, _, rfl, scalarBegins single⟩
    | list opener => exact ⟨_, _, rfl, by rw [opener]; rfl⟩
    | group opener => exact ⟨_, _, rfl, by rw [opener]; rfl⟩
    | call callee => exact ⟨_, _, rfl, by rw [callee]; rfl⟩
    | name kind => exact ⟨_, _, rfl, by rw [kind]; rfl⟩

theorem startsStatement {ts rest : List Token} (d : Derivation .statement ts rest) : Starts ts := by
  cases d with
  | assignment target => exact ⟨_, _, rfl, by rw [target]; rfl⟩
  | expression inner => exact inner.startsExpr

theorem newlinesStop {ts rest : List Token} (d : Derivation .newlines ts rest) (stops : Stops rest) :
    Stops ts := by
  cases d with
  | noNewline => exact stops
  | newline kind => exact stopsAt (by simp [kind, begins]) _

theorem lastCommaStops {ts rest : List Token} (d : Derivation .lastComma ts rest)
    (closed : Closed rest) : Stops ts ∧ NoNewline ts := by
  cases d with
  | noComma => exact ⟨closed.stops, closed.noNewline⟩
  | comma kind => exact ⟨stopsAt (by simp [kind, begins]) _, by simp [NoNewline, kind]⟩

theorem moreItemsStop {ts rest : List Token} (d : Derivation .moreItems ts rest)
    (follows : Follows .moreItems rest) : Stops ts ∧ NoNewline ts := by
  cases d with
  | noMore =>
    obtain ⟨us, ⟨last⟩, closed⟩ := follows
    exact last.lastCommaStops closed
  | more kind => exact ⟨stopsAt (by simp [kind, begins]) _, by simp [NoNewline, kind]⟩

theorem linesStop {ts rest : List Token} (d : Derivation .lines ts rest)
    (follows : Follows .lines rest) : Stops ts := by
  cases d with
  | noLine =>
    obtain ⟨e, us, ⟨blank⟩, stop⟩ := follows
    exact blank.newlinesStop (stopsAt (by simp [stop, begins]) us)
  | line kind => exact stopsAt (by simp [kind, begins]) _

theorem uniqueNewlines {ts rest rest' : List Token} (d : Derivation .newlines ts rest)
    (d' : Derivation .newlines ts rest') (follows : NoNewline rest) (follows' : NoNewline rest') :
    rest = rest' ∧ HEq d d' := by
  match d, d' with
  | noNewline, noNewline => exact ⟨rfl, .rfl⟩
  | noNewline, newline kind _ => exact absurd kind (follows _ rfl)
  | newline kind _, noNewline => exact absurd kind (follows' _ rfl)
  | newline _ others, newline _ others' =>
    obtain ⟨rfl, ⟨⟩⟩ := others.uniqueNewlines others' follows follows'
    exact ⟨rfl, .rfl⟩

theorem startsNotStops {ts us vs : List Token} (d : Derivation .newlines ts us) (starts : Starts us)
    (d' : Derivation .newlines ts vs) (stops : Stops vs) (other : NoNewline vs) : False := by
  obtain ⟨rfl, _⟩ := d.uniqueNewlines d' starts.noNewline other
  exact starts.notStops stops

theorem notLastComma {c : Token} {ts us rest : List Token} (before : Derivation .newlines ts us)
    (separator : c.kind = .comma) (item : Derivation .expr us rest)
    (follows : Follows .moreItems (c :: ts)) : False := by
  obtain ⟨vs, ⟨last⟩, closed⟩ := follows
  cases last with
  | noComma => exact closed.noComma separator
  | comma _ behind =>
    exact before.startsNotStops item.startsExpr behind closed.stops closed.noNewline

theorem primaryNoOperator {t : Token} {ts rest : List Token} (d : Derivation .primary (t :: ts) rest) :
    operatorOf t.kind = none := by
  cases d with
  | scalar single => cases kind : t.kind <;> simp [kind, scalarOf] at single <;> rfl
  | list opener | group opener => rw [opener]; rfl
  | call kind | name kind => rw [kind]; rfl

theorem nameAssigned {n a : Token} {ts rest : List Token} (target : n.kind = .identifier)
    (sign : a.kind = .assign) (d : Derivation .expr (n :: a :: ts) rest) : rest = a :: ts := by
  cases d with
  | unary operator => simp [target, operatorOf] at operator
  | value inner behind =>
    cases inner with
    | scalar single => simp [scalarOf, target] at single
    | list opener | group opener => rw [target] at opener; cases opener
    | call _ opener => rw [sign] at opener; cases opener
    | name =>
      cases behind with
      | noSubscript => rfl
      | subscript opener => rw [sign] at opener; cases opener

theorem unique {s : Symbol} {ts rest rest' : List Token} (d : Derivation s ts rest)
    (d' : Derivation s ts rest') (follows : Follows s rest) (follows' : Follows s rest') :
    rest = rest' ∧ HEq d d' := by
  -- Where two productions could begin alike, the first token behind them tells them apart.
  induction d generalizing rest' with
  | blank before stop ih =>
    obtain ⟨ends, apart⟩ := stopsAtEnd stop _
    cases d' with
    | blank before' stop' =>
      obtain ⟨⟨⟩, ⟨⟩⟩ := ih before' apart (stopsAtEnd stop' _).2
      exact ⟨rfl, .rfl⟩
    | script before' first' =>
      exact (before'.startsNotStops first'.startsStatement before ends apart).elim
  | script before first others behind stop ihBefore ihFirst ihOthers ihBehind =>
    obtain ⟨ends, apart⟩ := stopsAtEnd stop _
    cases d' with
    | blank before' stop' =>
      obtain ⟨ends', apart'⟩ := stopsAtEnd stop' _
      exact (before.startsNotStops first.startsStatement before' ends' apart').elim
    | script before' first' others' behind' stop' =>
      have left : Follows .lines _ := ⟨_, _, ⟨behind⟩, stop⟩
      have left' : Follows .lines _ := ⟨_, _, ⟨behind'⟩, stop'⟩
      obtain ⟨rfl, ⟨⟩⟩ := ihBefore before' first.startsStatement.noNewline
        first'.startsStatement.noNewline
      obtain ⟨rfl, ⟨⟩⟩ := ihFirst first' (others.linesStop left) (others'.linesStop left')
      obtain ⟨rfl, ⟨⟩⟩ := ihOthers others' left left'
      obtain ⟨⟨⟩, ⟨⟩⟩ := ihBehind behind' apart (stopsAtEnd stop' _).2
      exact ⟨rfl, .rfl⟩
  | noLine =>
    cases d' with
    | noLine => exact ⟨rfl, .rfl⟩
    | line separator before first =>
      obtain ⟨e, us, ⟨blank⟩, stop⟩ := follows
      obtain ⟨ends, apart⟩ := stopsAtEnd stop us
      exact ((newline separator before).startsNotStops first.startsStatement blank ends apart).elim
  | line separator before first others ihBefore ihFirst ihOthers =>
    cases d' with
    | noLine =>
      obtain ⟨e, us, ⟨blank⟩, stop⟩ := follows'
      obtain ⟨ends, apart⟩ := stopsAtEnd stop us
      exact ((newline separator before).startsNotStops first.startsStatement blank ends apart).elim
    | line _ before' first' others' =>
      obtain ⟨rfl, ⟨⟩⟩ := ihBefore before' first.startsStatement.noNewline
        first'.startsStatement.noNewline
      obtain ⟨rfl, ⟨⟩⟩ := ihFirst first' (others.linesStop follows) (others'.linesStop follows')
      obtain ⟨rfl, ⟨⟩⟩ := ihOthers others' follows follows'
      exact ⟨rfl, .rfl⟩
  | assignment target sign assigned ih =>
    cases d' with
    | assignment _ _ assigned' =>
      obtain ⟨rfl, ⟨⟩⟩ := ih assigned' follows follows'
      exact ⟨rfl, .rfl⟩
    | expression inner =>
      cases nameAssigned target sign inner
      obtain ⟨_, _, same, _, noSign⟩ := follows'
      cases same
      exact absurd sign noSign
  | expression inner ih =>
    cases d' with
    | assignment target sign assigned' =>
      cases nameAssigned target sign inner
      obtain ⟨_, _, same, _, noSign⟩ := follows
      cases same
      exact absurd sign noSign
    | expression inner' =>
      obtain ⟨rfl, ⟨⟩⟩ := ih inner' follows follows'
      exact ⟨rfl, .rfl⟩
  | unary operator operand ih =>
    cases d' with
    | unary operator' operand' =>
      obtain ⟨rfl, ⟨⟩⟩ := ih operand' follows follows'
      cases operator.symm.trans operator'
      exact ⟨rfl, .rfl⟩
    | value inner' =>
      rw [inner'.primaryNoOperator] at operator
      cases operator
  | value inner behind ihInner ihBehind =>
    cases d' with
    | unary operator' =>
      rw [inner.primaryNoOperator] at operator'
      cases operator'
    | value inner' behind' =>
      obtain ⟨rfl, ⟨⟩⟩ := ihInner inner' trivial trivial
      obtain ⟨rfl, ⟨⟩⟩ := ihBehind behind' follows follows'
      exact ⟨rfl, .rfl⟩
  | noSubscript =>
    cases d' with
    | noSubscript => exact ⟨rfl, .rfl⟩
    | subscript opener =>
      exact (Starts.notStops ⟨_, _, rfl, by rw [opener]; rfl⟩ follows).elim
  | subscript opener before index behind closer others ihBefore ihIndex ihBehind ihOthers =>
    cases d' with
    | noSubscript => exact (Starts.notStops ⟨_, _, rfl, by rw [opener]; rfl⟩ follows').elim
    | subscript _ before' index' behind' closer' others' =>
      obtain ⟨rfl, ⟨⟩⟩ := ihBefore before' index.startsExpr.noNewline index'.startsExpr.noNewline
      obtain ⟨rfl, ⟨⟩⟩ := ihIndex index' (behind.newlinesStop (closedAt (.inl closer) _).stops)
        (behind'.newlinesStop (closedAt (.inl closer') _).stops)
      obtain ⟨⟨⟩, ⟨⟩⟩ := ihBehind behind' (closedAt (.inl closer) _).noNewline
        (closedAt (.inl closer') _).noNewline
      obtain ⟨rfl, ⟨⟩⟩ := ihOthers others' follows follows'
      exact ⟨rfl, .rfl⟩
  | scalar single =>
    cases d' with
    | scalar single' =>
      cases single.symm.trans single'
      exact ⟨rfl, .rfl⟩
    | list opener | group opener => simp [scalarOf, opener] at single
    | call kind | name kind => simp [scalarOf, kind] at single
  | list opener inner closer ih =>
    cases d' with
    | list _ inner' closer' =>
      obtain ⟨⟨⟩, ⟨⟩⟩ := ih inner' (closedAt (.inl closer) _) (closedAt (.inl closer') _)
      exact ⟨rfl, .rfl⟩
    | scalar single => simp [scalarOf, opener] at single
    | group kind | call kind | name kind => rw [opener] at kind; cases kind
  | group opener inner closer ih =>
    cases d' with
    | group _ inner' closer' =>
      obtain ⟨⟨⟩, ⟨⟩⟩ := ih inner' (closedAt (.inr closer) _) (closedAt (.inr closer') _)
      exact ⟨rfl, .rfl⟩
    | scalar single => simp [scalarOf, opener] at single
    | list kind | call kind | name kind => rw [opener] at kind; cases kind
  | call callee opener inner closer ih =>
    cases d' with
    | call _ _ inner' closer' =>
      obtain ⟨⟨⟩, ⟨⟩⟩ := ih inner' (closedAt (.inr closer) _) (closedAt (.inr closer') _)
      exact ⟨rfl, .rfl⟩
    | name _ apart => exact absurd opener (apart _ rfl)
    | scalar single => simp [scalarOf, callee] at single
    | list kind | group kind => rw [callee] at kind; cases kind
  | name callee apart =>
    cases d' with
    | name => exact ⟨rfl, .rfl⟩
    | call _ opener => exact absurd opener (apart _ rfl)
    | scalar single => simp [scalarOf, callee] at single
    | list kind | group kind => rw [callee] at kind; cases kind
  | noItem before ih =>
    cases d' with
    | noItem before' =>
      obtain ⟨rfl, ⟨⟩⟩ := ih before' follows.noNewline follows'.noNewline
      exact ⟨rfl, .rfl⟩
    | items before' first' =>
      exact (before'.startsNotStops first'.startsExpr before follows.stops follows.noNewline).elim
  | items before first behind others last ihBefore ihFirst ihBehind ihOthers ihLast =>
    cases d' with
    | noItem before' =>
      exact (before.startsNotStops first.startsExpr before' follows'.stops follows'.noNewline).elim
    | items before' first' behind' others' last' =>
      have left : Follows .moreItems _ := ⟨_, ⟨last⟩, follows⟩
      have left' : Follows .moreItems _ := ⟨_, ⟨last'⟩, follows'⟩
      obtain ⟨stops, apart⟩ := others.moreItemsStop left
      obtain ⟨stops', apart'⟩ := others'.moreItemsStop left'
      obtain ⟨rfl, ⟨⟩⟩ := ihBefore before' first.startsExpr.noNewline first'.startsExpr.noNewline
      obtain ⟨rfl, ⟨⟩⟩ := ihFirst first' (behind.newlinesStop stops) (behind'.newlinesStop stops')
      obtain ⟨rfl, ⟨⟩⟩ := ihBehind behind' apart apart'
      obtain ⟨rfl, ⟨⟩⟩ := ihOthers others' left left'
      obtain ⟨rfl, ⟨⟩⟩ := ihLast last' follows follows'
      exact ⟨rfl, .rfl⟩
  | noMore =>
    cases d' with
    | noMore => exact ⟨rfl, .rfl⟩
    | more separator before item => exact (before.notLastComma separator item follows).elim
  | more separator before item behind others ihBefore ihItem ihBehind ihOthers =>
    cases d' with
    | noMore => exact (before.notLastComma separator item follows').elim
    | more _ before' item' behind' others' =>
      obtain ⟨stops, apart⟩ := others.moreItemsStop follows
      obtain ⟨stops', apart'⟩ := others'.moreItemsStop follows'
      obtain ⟨rfl, ⟨⟩⟩ := ihBefore before' item.startsExpr.noNewline item'.startsExpr.noNewline
      obtain ⟨rfl, ⟨⟩⟩ := ihItem item' (behind.newlinesStop stops) (behind'.newlinesStop stops')
      obtain ⟨rfl, ⟨⟩⟩ := ihBehind behind' apart apart'
      obtain ⟨rfl, ⟨⟩⟩ := ihOthers others' follows follows'
      exact ⟨rfl, .rfl⟩
  | noComma =>
    cases d' with
    | noComma => exact ⟨rfl, .rfl⟩
    | comma kind => exact (follows.noComma kind).elim
  | comma kind behind ih =>
    cases d' with
    | noComma => exact (follows'.noComma kind).elim
    | comma _ behind' =>
      obtain ⟨rfl, ⟨⟩⟩ := ih behind' follows.noNewline follows'.noNewline
      exact ⟨rfl, .rfl⟩
  | noNewline => exact noNewline.uniqueNewlines d' follows follows'
  | newline kind others => exact (newline kind others).uniqueNewlines d' follows follows'

end Derivation

end SeqScript.Parser
