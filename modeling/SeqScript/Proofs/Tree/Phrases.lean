import SeqScript.Proofs.Token.Regions
import SeqScript.Proofs.Tree.Accepts
import SeqScript.Proofs.Tree.Reprint

/-! What can be derived from some tokens wherever they stand. The brackets of a phrase are balanced,
so that it leaves the depth in which it begins and never falls below it; and a phrase depends on the
kinds and the texts of its tokens alone. -/
namespace SeqScript.Parser
open Lexer

structure Balanced (ts : List Token) : Prop where
  level : ∀ depth, depthBehind depth ts = depth
  stays : ∀ floor depth rest, Stays floor depth rest → Stays floor depth (ts ++ rest)

def Plain (t : Token) : Prop := ∀ depth, t.kind.depthAfter depth = depth

theorem plainOf {t : Token} {kind : TokenKind} (same : t.kind = kind)
    (plain : ∀ depth, kind.depthAfter depth = depth) : Plain t := by
  rw [Plain, same]
  exact plain

theorem operatorPlain {t : Token} {op : UnaryOp} (operator : operatorOf t.kind = some op) :
    Plain t := by
  unfold operatorOf at operator
  split at operator
  · rename_i kind
    exact plainOf kind fun _ => rfl
  · rename_i kind
    exact plainOf kind fun _ => rfl
  · cases operator

theorem scalarPlain {t : Token} {v : Scalar} (single : scalarOf t = some v) : Plain t := by
  unfold scalarOf at single
  split at single
  case h_6 => cases single
  all_goals
    rename_i kind
    exact plainOf kind fun _ => rfl

namespace Balanced

theorem nothing : Balanced [] := ⟨fun _ => rfl, fun _ _ _ stays => stays⟩

theorem append {ts us : List Token} (first : Balanced ts) (second : Balanced us) :
    Balanced (ts ++ us) where
  level depth := by
    have split : depthBehind depth (ts ++ us) = depthBehind (depthBehind depth ts) us :=
      List.foldl_append
    rw [split, first.level, second.level]
  stays floor depth rest stays := by
    rw [List.append_assoc]
    exact first.stays _ _ _ (second.stays _ _ _ stays)

theorem plain {t : Token} {ts : List Token} (plain : Plain t) (others : Balanced ts) :
    Balanced (t :: ts) where
  level depth := (congrArg (depthBehind · ts) (plain depth)).trans (others.level depth)
  stays floor depth rest stays := by
    refine ⟨stays.here, ?_⟩
    rw [plain depth]
    exact others.stays _ _ _ stays

theorem wrapped {o c : Token} {ts : List Token} (inner : Balanced ts)
    (opens : ∀ depth, o.kind.depthAfter depth = depth + 1)
    (closes : ∀ depth, c.kind.depthAfter depth = depth - 1) : Balanced (o :: (ts ++ [c])) where
  level depth := by
    have split : depthBehind depth (o :: (ts ++ [c])) =
        c.kind.depthAfter (depthBehind (o.kind.depthAfter depth) ts) := List.foldl_append
    rw [split, inner.level, opens, closes, Nat.add_sub_cancel]
  stays floor depth rest stays := by
    rw [List.cons_append, List.append_assoc]
    refine ⟨stays.here, ?_⟩
    rw [opens]
    refine inner.stays _ _ _ ⟨Nat.le_succ_of_le stays.here, ?_⟩
    rw [closes, Nat.add_sub_cancel]
    exact stays

theorem newlines {ns : List Token} (blank : Newlines ns) : Balanced ns := by
  induction ns with
  | nil => exact nothing
  | cons n ns ih =>
    obtain ⟨kind, others⟩ := List.forall_mem_cons.mp blank
    exact plain (plainOf kind fun _ => rfl) (ih others)

theorem padded {ns ts ms : List Token} (inner : Balanced ts) (before : Newlines ns)
    (behind : Newlines ms) : Balanced (ns ++ ts ++ ms) :=
  ((newlines before).append inner).append (newlines behind)

theorem bracket {o c : Token} {ts : List Token} (inner : Balanced ts)
    (opener : o.kind = .openBracket) (closer : c.kind = .closeBracket) :
    Balanced (o :: (ts ++ [c])) :=
  inner.wrapped (fun _ => by rw [opener]; rfl) fun _ => by rw [closer]; rfl

theorem paren {o c : Token} {ts : List Token} (inner : Balanced ts)
    (opener : o.kind = .openParen) (closer : c.kind = .closeParen) :
    Balanced (o :: (ts ++ [c])) :=
  inner.wrapped (fun _ => by rw [opener]; rfl) fun _ => by rw [closer]; rfl

end Balanced

theorem Derives.balanced {ts : List Token} {p : Phrase} (derives : Derives ts p) :
    Balanced ts := by
  induction derives with
  | unary operator operand ih => exact .plain (operatorPlain operator) ih
  | value inner ih => exact ih
  | scalar single => exact .plain (scalarPlain single) .nothing
  | name kind => exact .plain (plainOf kind fun _ => rfl) .nothing
  | list opener inner closer ih => exact ih.bracket opener closer
  | group opener inner closer ih => exact ih.paren opener closer
  | call callee opener inner closer ih =>
    exact .plain (plainOf callee fun _ => rfl) (ih.paren opener closer)
  | subscript object opener before index behind closer ihObject ihIndex =>
    exact ihObject.append ((ihIndex.padded before behind).bracket opener closer)
  | noItem blank => exact .newlines blank
  | lastItem before item behind ih => exact ih.padded before behind
  | moreItems before item behind separator others ihItem ihOthers =>
    exact (ihItem.padded before behind).append (.plain (plainOf separator fun _ => rfl) ihOthers)

theorem DerivesStatement.balanced {ts : List Token} {s : Statement}
    (derives : DerivesStatement ts s) : Balanced ts := by
  cases derives with
  | assignment target sign value =>
    exact .plain (plainOf target fun _ => rfl) (.plain (plainOf sign fun _ => rfl) value.balanced)
  | expression inner => exact inner.balanced

theorem DerivesLines.balanced {ts : List Token} {ss : List Statement}
    (derives : DerivesLines ts ss) : Balanced ts := by
  induction derives with
  | none blank => exact .newlines blank
  | last before statement => exact (Balanced.newlines before).append statement.balanced
  | more before statement separator others ih =>
    exact ((Balanced.newlines before).append statement.balanced).append
      (.plain (plainOf separator fun _ => rfl) ih)

theorem newlinesAlike {ns us : List Token} (blank : Newlines ns)
    (same : us.map Token.lexical = ns.map Token.lexical) : Newlines us := by
  intro u member
  obtain ⟨n, source, alike⟩ := List.mem_map.mp (same ▸ List.mem_map_of_mem member)
  rw [← (kindOfLexical alike).1]
  exact blank n source

theorem scalarAlike {t u : Token} (same : u.lexical = t.lexical) : scalarOf u = scalarOf t := by
  obtain ⟨kind, value⟩ := kindOfLexical same
  rw [scalarOf, scalarOf, kind, value]

theorem completeAlike (o : Opening) {es es' : List Expr} (marked : Bool) (span span' : Span)
    (equal : es'.map Expr.bare = es.map Expr.bare) :
    (o.complete es' marked span').bare = (o.complete es marked span).bare := by
  rw [completeDenotes, completeDenotes, equal]

theorem bracketsAlike {vs ts : List Token} {o c : Token}
    (same : vs.map Token.lexical = (o :: (ts ++ [c])).map Token.lexical) :
    ∃ o' us c', vs = o' :: (us ++ [c']) ∧ o'.kind = o.kind ∧
      us.map Token.lexical = ts.map Token.lexical ∧ c'.kind = c.kind := by
  rw [List.map_cons, List.map_append] at same
  obtain ⟨o', us, c', whole, opens, middle, closes⟩ := splitBracketed same
  exact ⟨o', us, c', whole, (kindOfLexical opens).1, middle, (kindOfLexical closes).1⟩

theorem paddedAlike {vs ns ts ms : List Token} (before : Newlines ns) (behind : Newlines ms)
    (same : vs.map Token.lexical = (ns ++ ts ++ ms).map Token.lexical) :
    ∃ ns' us ms', vs = ns' ++ us ++ ms' ∧ Newlines ns' ∧
      us.map Token.lexical = ts.map Token.lexical ∧ Newlines ms' := by
  rw [List.map_append, List.map_append] at same
  obtain ⟨front, ms', rfl, middle, last⟩ := List.map_eq_append_iff.mp same
  obtain ⟨ns', us, rfl, lead, middle⟩ := List.map_eq_append_iff.mp middle
  exact ⟨ns', us, ms', rfl, newlinesAlike before lead, middle, newlinesAlike behind last⟩

theorem Derives.reads {ts : List Token} {p : Phrase} (derives : Derives ts p) :
    Reads (ts.map Token.lexical) p := by
  induction derives with
  | unary operator operand ih =>
    intro vs same
    obtain ⟨t, us, rfl, head, tail⟩ := List.map_eq_cons_iff.mp same
    obtain ⟨e, derives, equal⟩ := ih.expr tail
    rw [← (kindOfLexical head).1] at operator
    exact ⟨_, .unary operator derives, by simp [Phrase.bare, Expr.bare, equal]⟩
  | value inner ih => exact ih.asExpr
  | scalar single =>
    intro vs same
    obtain ⟨t, rfl, head⟩ := List.map_eq_singleton_iff.mp same
    exact ⟨_, .scalar ((scalarAlike head).trans single), rfl⟩
  | name kind =>
    intro vs same
    obtain ⟨t, rfl, head⟩ := List.map_eq_singleton_iff.mp same
    obtain ⟨alike, value⟩ := kindOfLexical head
    exact ⟨_, .name (alike.trans kind), by simp [Phrase.bare, Expr.bare, value]⟩
  | list opener inner closer ih =>
    intro vs same
    obtain ⟨o, us, c, rfl, opens, middle, closes⟩ := bracketsAlike same
    obtain ⟨es, derives, equal⟩ := ih.items middle
    exact ⟨_, .list (opens.trans opener) derives (closes.trans closer),
      congrArg Phrase.value (completeAlike _ _ _ _ equal)⟩
  | group opener inner closer ih =>
    intro vs same
    obtain ⟨o, us, c, rfl, opens, middle, closes⟩ := bracketsAlike same
    obtain ⟨es, derives, equal⟩ := ih.items middle
    exact ⟨_, .group (opens.trans opener) derives (closes.trans closer),
      congrArg Phrase.value (completeAlike _ _ _ _ equal)⟩
  | call callee opener inner closer ih =>
    intro vs same
    obtain ⟨n, ws, rfl, names, tail⟩ := List.map_eq_cons_iff.mp same
    obtain ⟨o, us, c, rfl, opens, middle, closes⟩ := bracketsAlike tail
    obtain ⟨es, derives, equal⟩ := ih.items middle
    obtain ⟨kind, value⟩ := kindOfLexical names
    refine ⟨_, .call (kind.trans callee) (opens.trans opener) derives (closes.trans closer), ?_⟩
    rw [value]
    exact congrArg Phrase.value (completeAlike _ _ _ _ equal)
  | subscript object opener before index behind closer ihObject ihIndex =>
    intro vs same
    rw [List.map_append] at same
    obtain ⟨front, back, rfl, first, second⟩ := List.map_eq_append_iff.mp same
    obtain ⟨o, inside, c, rfl, opens, middle, closes⟩ := bracketsAlike second
    obtain ⟨ns, us, ms, rfl, lead, middle, last⟩ := paddedAlike before behind middle
    obtain ⟨e, derives, equal⟩ := ihObject.value first
    obtain ⟨i, derives', equal'⟩ := ihIndex.expr middle
    exact ⟨_, .subscript derives (opens.trans opener) lead derives' last (closes.trans closer),
      by simp [Phrase.bare, Expr.bare, equal, equal']⟩
  | noItem blank =>
    intro vs same
    exact ⟨_, .noItem (newlinesAlike blank same), rfl⟩
  | lastItem before item behind ih =>
    intro vs same
    obtain ⟨ns, us, ms, rfl, lead, middle, last⟩ := paddedAlike before behind same
    obtain ⟨e, derives, equal⟩ := ih.expr middle
    exact ⟨_, .lastItem lead derives last, by simp [Phrase.bare, equal]⟩
  | moreItems before item behind separator others ihItem ihOthers =>
    intro vs same
    rw [List.map_append] at same
    obtain ⟨front, rest, rfl, first, second⟩ := List.map_eq_append_iff.mp same
    obtain ⟨ns, us, ms, rfl, lead, middle, last⟩ := paddedAlike before behind first
    obtain ⟨c, ws, rfl, mark, tail⟩ := List.map_eq_cons_iff.mp second
    obtain ⟨e, derives, equal⟩ := ihItem.expr middle
    obtain ⟨es, derives', equal'⟩ := ihOthers.items tail
    exact ⟨_, .moreItems lead derives last ((kindOfLexical mark).1.trans separator) derives',
      by simp [Phrase.bare, equal, equal']⟩

theorem DerivesStatement.reads {ts us : List Token} {s : Statement} (derives : DerivesStatement ts s)
    (same : us.map Token.lexical = ts.map Token.lexical) :
    ∃ s', DerivesStatement us s' ∧ s'.bare = s.bare := by
  cases derives with
  | assignment target sign value =>
    obtain ⟨n, rest, rfl, names, tail⟩ := List.map_eq_cons_iff.mp same
    obtain ⟨a, vs, rfl, mark, behind⟩ := List.map_eq_cons_iff.mp tail
    obtain ⟨e, derives, equal⟩ := value.reads.expr behind
    obtain ⟨kind, text⟩ := kindOfLexical names
    exact ⟨_, .assignment (kind.trans target) ((kindOfLexical mark).1.trans sign) derives,
      by simp [Statement.bare, equal, text]⟩
  | expression inner =>
    obtain ⟨e, derives, equal⟩ := inner.reads.expr same
    exact ⟨_, .expression derives, by simp [Statement.bare, equal]⟩

theorem DerivesLines.reads {ts us : List Token} {ss : List Statement} (derives : DerivesLines ts ss)
    (same : us.map Token.lexical = ts.map Token.lexical) :
    ∃ ss', DerivesLines us ss' ∧ ss'.map Statement.bare = ss.map Statement.bare := by
  induction derives generalizing us with
  | none blank => exact ⟨[], .none (newlinesAlike blank same), rfl⟩
  | last before statement =>
    rw [List.map_append] at same
    obtain ⟨ns, vs, rfl, lead, back⟩ := List.map_eq_append_iff.mp same
    obtain ⟨s, derives, equal⟩ := statement.reads back
    exact ⟨[s], .last (newlinesAlike before lead) derives, by simp [equal]⟩
  | more before statement separator others ih =>
    rw [List.map_append, List.map_append] at same
    obtain ⟨front, rest, rfl, first, tail⟩ := List.map_eq_append_iff.mp same
    obtain ⟨ns, vs, rfl, lead, middle⟩ := List.map_eq_append_iff.mp first
    obtain ⟨n, ws, rfl, mark, behind⟩ := List.map_eq_cons_iff.mp tail
    obtain ⟨s, derives, equal⟩ := statement.reads middle
    obtain ⟨ss, lines, equal'⟩ := ih behind
    exact ⟨s :: ss, .more (newlinesAlike before lead) derives
      ((kindOfLexical mark).1.trans separator) lines, by simp [equal, equal']⟩

end SeqScript.Parser
