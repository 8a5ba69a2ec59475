import SeqScript.Proofs.Tree.Demands

/-! The parser accepts the lists of tokens that have a derivation, and no others. It gives back the
tree of the derivation, which is the only one there is. -/
namespace SeqScript.Parser

def CommaAtEnd (ts : List Token) (there : Bool) : Prop :=
  ts = [] ∧ there = false ∨ ∃ c ns, ts = c :: ns ∧ c.kind = .comma ∧ Newlines ns ∧ there = true

/-- The tokens that a phrase of a symbol covers derive, with their places, what the phrase denotes.
Subscripts, further items and further lines do so behind what stands before them. -/
def Covered (ts : List Token) : (s : Symbol) → s.Meaning → Prop
  | .newlines, _ => Newlines ts
  | .expr, m => ∃ e, Derives ts (.expr e) ∧ e.bare = m
  | .primary, m => ∃ e, Derives ts (.value e) ∧ e.bare = m
  | .subscripts, m => ∀ us e, Derives us (.value e) → ∃ e', Derives (us ++ ts) (.value e') ∧
      e'.bare = List.foldl (fun e i => Expr.subscript e i .synthetic) e.bare m
  | .items, m => ∃ es, Derives ts (.items es m.2) ∧ es.map Expr.bare = m.1
  | .lastComma, m => CommaAtEnd ts m
  | .moreItems, m => ∀ ns us ms vs e there, Newlines ns → Derives us (.expr e) → Newlines ms →
      CommaAtEnd vs there → ∃ es, Derives (ns ++ us ++ ms ++ (ts ++ vs)) (.items (e :: es) !there) ∧
        es.map Expr.bare = m
  | .statement, m => ∃ s, DerivesStatement ts s ∧ s.bare = m
  | .lines, m => ∀ ns us ms s, Newlines ns → DerivesStatement us s → Newlines ms →
      ∃ ss, DerivesLines (ns ++ us ++ (ts ++ ms)) (s :: ss) ∧ ss.map Statement.bare = m
  | .script, m => ∃ us e ss, ts = us ++ [e] ∧ e.kind = .endOfInput ∧ DerivesLines us ss ∧
      ss.map Statement.bare = m

theorem completeDenotes (o : Opening) (es : List Expr) (marked : Bool) (span : Span) :
    (o.complete es marked span).bare = o.denotes (es.map Expr.bare, marked) := by
  rcases es with _ | ⟨x, _ | ⟨y, rest⟩⟩ <;> cases o <;> cases marked <;>
    simp [Opening.complete, Opening.whole, Opening.denotes, elements, Expr.bare,
      Expr.bareSlotsEqMap, Expr.bareAllEqMap]

theorem consDenotes {α : Type} {f : α → α} {a b : α} {as bs : List α} (first : f a = b)
    (others : as.map f = bs) : (a :: as).map f = b :: bs := by
  rw [List.map_cons, first, others]

theorem derivationCovers {s : Symbol} {ts rest : List Token} (d : Derivation s ts rest) :
    ∃ us, ts = us ++ rest ∧ Covered us s d.denotes := by
  induction d with
  | blank before stop ih =>
    obtain ⟨us, rfl, blank⟩ := ih
    exact ⟨us ++ [_], by simp, us, _, [], rfl, stop, .none blank, rfl⟩
  | script before first others behind stop ihBefore ihFirst ihOthers ihBehind =>
    obtain ⟨ns, rfl, blank⟩ := ihBefore
    obtain ⟨us, rfl, t, derives, same⟩ := ihFirst
    obtain ⟨vs, rfl, lines⟩ := ihOthers
    obtain ⟨ms, rfl, blank'⟩ := ihBehind
    obtain ⟨ss, derives', same'⟩ := lines ns us ms t blank derives blank'
    exact ⟨_ ++ [_], by simp, _, _, t :: ss, rfl, stop, derives', consDenotes same same'⟩
  | noLine =>
    refine ⟨[], rfl, fun ns us ms t blank derives blank' => ?_⟩
    cases ms with
    | nil => exact ⟨[], by simpa using .last blank derives, rfl⟩
    | cons m ms =>
      obtain ⟨kind, others⟩ := List.forall_mem_cons.mp blank'
      exact ⟨[], .more blank derives kind (.none others), rfl⟩
  | @line n _ _ _ _ separator before first others ihBefore ihFirst ihOthers =>
    obtain ⟨ns', rfl, blank'⟩ := ihBefore
    obtain ⟨us', rfl, t', derives', same⟩ := ihFirst
    obtain ⟨vs, rfl, lines⟩ := ihOthers
    refine ⟨n :: (ns' ++ us' ++ vs), by simp, fun ns us ms t blank derives behind => ?_⟩
    obtain ⟨ss, more, same'⟩ := lines ns' us' ms t' blank' derives' behind
    have whole := DerivesLines.more blank derives separator more
    exact ⟨t' :: ss, by simpa using whole, consDenotes same same'⟩
  | assignment target sign assigned ih =>
    obtain ⟨us, rfl, e, derives, same⟩ := ih
    exact ⟨_ :: _ :: us, rfl, _, .assignment target sign derives,
      congrArg (Statement.assignment _ · .synthetic) same⟩
  | expression inner ih =>
    obtain ⟨us, rfl, e, derives, same⟩ := ih
    exact ⟨us, rfl, _, .expression derives, congrArg (Statement.expression · .synthetic) same⟩
  | unary operator operand ih =>
    obtain ⟨us, rfl, e, derives, same⟩ := ih
    exact ⟨_ :: us, rfl, _, .unary operator derives, congrArg (Expr.unary _ · .synthetic) same⟩
  | value inner behind ihInner ihBehind =>
    obtain ⟨us, rfl, e, derives, same⟩ := ihInner
    obtain ⟨vs, rfl, others⟩ := ihBehind
    obtain ⟨e', derives', same'⟩ := others us e derives
    refine ⟨us ++ vs, (List.append_assoc ..).symm, e', .value derives', ?_⟩
    rw [same', same]
    rfl
  | noSubscript => exact ⟨[], rfl, fun us e derives => ⟨e, by simpa using derives, rfl⟩⟩
  | @subscript o c _ _ _ _ _ opener before index behind closer others ihBefore ihIndex ihBehind ihOthers =>
    obtain ⟨ns, rfl, blank⟩ := ihBefore
    obtain ⟨vs, rfl, i, derives', same⟩ := ihIndex
    obtain ⟨ms, rfl, blank'⟩ := ihBehind
    obtain ⟨ws, rfl, others⟩ := ihOthers
    refine ⟨o :: (ns ++ vs ++ ms ++ c :: ws), by simp, fun us e derives => ?_⟩
    have first := Derives.subscript derives opener blank derives' blank' closer
    obtain ⟨e', whole, same'⟩ := others _ _ first
    refine ⟨e', by simpa using whole, ?_⟩
    rw [same', Expr.bare, same]
    rfl
  | scalar single => exact ⟨[_], rfl, _, .scalar single, rfl⟩
  | list opener inner closer ih =>
    obtain ⟨us, rfl, es, derives, same⟩ := ih
    refine ⟨_ :: (us ++ [_]), by simp, _, .list opener derives closer, ?_⟩
    rw [completeDenotes, same]
    rfl
  | group opener inner closer ih =>
    obtain ⟨us, rfl, es, derives, same⟩ := ih
    refine ⟨_ :: (us ++ [_]), by simp, _, .group opener derives closer, ?_⟩
    rw [completeDenotes, same]
    rfl
  | call callee opener inner closer ih =>
    obtain ⟨us, rfl, es, derives, same⟩ := ih
    refine ⟨_ :: _ :: (us ++ [_]), by simp, _, .call callee opener derives closer, ?_⟩
    rw [completeDenotes, same]
    rfl
  | name kind apart => exact ⟨[_], rfl, _, .name kind, rfl⟩
  | noItem before ih =>
    obtain ⟨ns, rfl, blank⟩ := ih
    exact ⟨ns, rfl, [], .noItem blank, rfl⟩
  | items before first behind others last ihBefore ihFirst ihBehind ihOthers ihLast =>
    obtain ⟨ns, rfl, blank⟩ := ihBefore
    obtain ⟨us, rfl, e, derives, same⟩ := ihFirst
    obtain ⟨ms, rfl, blank'⟩ := ihBehind
    obtain ⟨vs, rfl, more⟩ := ihOthers
    obtain ⟨ws, rfl, comma⟩ := ihLast
    obtain ⟨es, whole, same'⟩ := more ns us ms ws e _ blank derives blank' comma
    exact ⟨_, by simp, e :: es, whole, consDenotes same same'⟩
  | noMore =>
    refine ⟨[], rfl, fun ns us ms vs e there blank derives blank' comma => ⟨[], ?_, rfl⟩⟩
    rcases comma with ⟨rfl, rfl⟩ | ⟨c, ks, rfl, kind, behind, rfl⟩
    · simpa using Derives.lastItem blank derives blank'
    · exact .moreItems blank derives blank' kind (.noItem behind)
  | @more c _ _ _ _ _ separator before item behind others ihBefore ihItem ihBehind ihOthers =>
    obtain ⟨ns', rfl, blank⟩ := ihBefore
    obtain ⟨us', rfl, e', derives, same⟩ := ihItem
    obtain ⟨ms', rfl, blank'⟩ := ihBehind
    obtain ⟨ws, rfl, more⟩ := ihOthers
    refine ⟨c :: (ns' ++ us' ++ ms' ++ ws), by simp,
      fun ns us ms vs e there before item behind comma => ?_⟩
    obtain ⟨es, others, same'⟩ := more ns' us' ms' vs e' there blank derives blank' comma
    have whole := Derives.moreItems before item behind separator others
    exact ⟨e' :: es, by simpa using whole, consDenotes same same'⟩
  | noComma => exact ⟨[], rfl, .inl ⟨rfl, rfl⟩⟩
  | comma kind behind ih =>
    obtain ⟨ns, rfl, blank⟩ := ih
    exact ⟨_ :: ns, rfl, .inr ⟨_, ns, rfl, kind, blank, rfl⟩⟩
  | noNewline => exact ⟨[], rfl, fun t member => by cases member⟩
  | newline kind others ih =>
    obtain ⟨us, rfl, blank⟩ := ih
    exact ⟨_ :: us, rfl, List.forall_mem_cons.mpr ⟨kind, blank⟩⟩

theorem scriptCovers {ts rest : List Token} (d : Derivation .script ts rest) :
    ∃ us e ss, ts = us ++ e :: rest ∧ e.kind = .endOfInput ∧ DerivesLines us ss ∧
      ss.map Statement.bare = d.denotes := by
  obtain ⟨_, rfl, us, e, ss, rfl, covered⟩ := derivationCovers d
  exact ⟨us, e, ss, by simp, covered⟩

theorem endsAtLast {ts us rest : List Token} {last e : Token} (inner : ∀ t ∈ ts, t.kind ≠ .endOfInput)
    (stop : e.kind = .endOfInput) (same : ts ++ [last] = us ++ e :: rest) :
    ts = us ∧ last = e ∧ rest = [] := by
  induction us generalizing ts with
  | nil =>
    cases ts with
    | nil => cases same; exact ⟨rfl, rfl, rfl⟩
    | cons t ts =>
      cases same
      exact absurd stop (inner _ List.mem_cons_self)
  | cons u us ih =>
    cases ts with
    | nil => cases us <;> cases same
    | cons t ts =>
      obtain ⟨head, tail⟩ := List.cons.inj same
      obtain ⟨rfl, rest⟩ := ih (fun t member => inner t (List.mem_cons_of_mem _ member)) tail
      exact ⟨congrArg (· :: ts) head, rest⟩

/- Tokens that end with their only end token are a script exactly if the grammar derives them; then
they have one derivation, and the script is what it denotes. -/
theorem acceptsDerivable {ts : List Token} {last : Token} (inner : ∀ t ∈ ts, t.kind ≠ .endOfInput)
    (ends : last.kind = .endOfInput) :
    ((∃ s, scriptOfTokens (ts ++ [last]) = .ok s) ↔
      Nonempty (Derivation .script (ts ++ [last]) [])) ∧
    (∀ d d' : Derivation .script (ts ++ [last]) [], d = d') ∧
    ∀ d : Derivation .script (ts ++ [last]) [], ∃ s, scriptOfTokens (ts ++ [last]) = .ok s ∧
      s.statements.map Statement.bare = d.denotes := by
  have accepted (d : Derivation .script (ts ++ [last]) []) :
      ∃ s, scriptOfTokens (ts ++ [last]) = .ok s ∧
        s.statements.map Statement.bare = d.denotes := by
    obtain ⟨us, e, ss, same, stop, derives, denotes⟩ := scriptCovers d
    obtain ⟨rfl, rfl, _⟩ := endsAtLast inner stop same
    exact ⟨_, scriptAccepted derives ends, denotes⟩
  refine ⟨⟨fun ⟨s, found⟩ => ?_, fun ⟨d⟩ => ?_⟩, fun d d' => ?_, accepted⟩
  · unfold scriptOfTokens at found
    split at found
    · rename_i ran
      obtain ⟨rest, ⟨d⟩⟩ := runDemands ran
      obtain ⟨us, e, _, same, stop, _⟩ := scriptCovers d
      obtain ⟨_, _, rfl⟩ := endsAtLast inner stop same
      exact ⟨d⟩
    · cases found
    · cases found
  · obtain ⟨s, found, _⟩ := accepted d
    exact ⟨s, found⟩
  · exact eq_of_heq (d.unique d' trivial trivial).2

section
open SeqScript.Parser.Derivation

def tokenOf (kind : TokenKind) (value : String) : Token := ⟨kind, text value, default⟩

def groupedTokens : List Token :=
  [tokenOf .identifier "x", tokenOf .assign "=", tokenOf .openParen "(", tokenOf .identifier "y",
    tokenOf .closeParen ")", tokenOf .openBracket "[", tokenOf .newline "\n", tokenOf .openParen "(",
    tokenOf .identifier "y", tokenOf .comma ",", tokenOf .closeParen ")", tokenOf .closeBracket "]"]

def variableY {ts : List Token} (apart : NoCall ts) :
    Derivation .expr (tokenOf .identifier "y" :: ts) ts := .value (.name rfl apart) .noSubscript

def groupedDerivation : Derivation .script (groupedTokens ++ [tokenOf .endOfInput ""]) [] :=
  have apart : ∀ (kind : TokenKind) (value : String) (ts : List Token), kind ≠ .openParen →
      NoCall (tokenOf kind value :: ts) := fun kind value ts other t head => by
    cases Option.some.inj head
    exact other
  .script .noNewline
    (.assignment rfl rfl (.value
      (.group rfl (.items .noNewline (variableY (apart _ _ _ (by decide))) .noNewline .noMore .noComma)
        rfl)
      (.subscript rfl (.newline rfl .noNewline)
        (.value (.group rfl (.items .noNewline (variableY (apart _ _ _ (by decide))) .noNewline .noMore
          (.comma rfl .noNewline)) rfl) .noSubscript)
        .noNewline rfl .noSubscript)))
    .noLine .noNewline rfl

theorem groupedAccepted :
    (∀ t ∈ groupedTokens, t.kind ≠ .endOfInput) ∧
    ∃ s, scriptOfTokens (groupedTokens ++ [tokenOf .endOfInput ""]) = .ok s ∧
      s.statements.map Statement.bare =
        [.assignment (text "x") (.subscript (.name (text "y") .synthetic)
          (.sequence .tuple [some (.name (text "y") .synthetic)] .synthetic) .synthetic)
          .synthetic] := by
  have inner : ∀ t ∈ groupedTokens, t.kind ≠ .endOfInput := by decide
  exact ⟨inner, (acceptsDerivable inner rfl).2.2 groupedDerivation⟩

end

end SeqScript.Parser
