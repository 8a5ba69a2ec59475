import SeqScript.Proofs.Tree.Grammar
import SeqScript.Proofs.Tree.Spelling
import SeqScript.Fault.Report

/-! Printed trees are read back. The tokens of a printed tree without empty slots derive that tree,
up to the places of its nodes, and an empty slot anywhere makes the text one that the lexer
refuses. -/
namespace SeqScript
open Lexer

namespace Parser

def Phrase.bare : Phrase → Phrase
  | .expr e => .expr e.bare
  | .value e => .value e.bare
  | .items es marked => .items (es.map Expr.bare) marked

def Reads (xs : List Lexical) (p : Phrase) : Prop :=
  ∀ ts : List Token, ts.map Token.lexical = xs → ∃ q, Derives ts q ∧ q.bare = p.bare

theorem noNewlines : Newlines [] := fun t member => by cases member

theorem kindOfLexical {t : Token} {kind : TokenKind} {value : Text}
    (same : t.lexical = (kind, value)) : t.kind = kind ∧ t.value = value :=
  ⟨congrArg Prod.fst same, congrArg Prod.snd same⟩

theorem Reads.expr {xs : List Lexical} {e : Expr} (reads : Reads xs (.expr e)) {ts : List Token}
    (same : ts.map Token.lexical = xs) : ∃ e', Derives ts (.expr e') ∧ e'.bare = e.bare := by
  obtain ⟨q, derives, equal⟩ := reads ts same
  cases q with
  | expr e' => exact ⟨e', derives, Phrase.expr.inj equal⟩
  | value => cases equal
  | items => cases equal

theorem Reads.value {xs : List Lexical} {e : Expr} (reads : Reads xs (.value e)) {ts : List Token}
    (same : ts.map Token.lexical = xs) : ∃ e', Derives ts (.value e') ∧ e'.bare = e.bare := by
  obtain ⟨q, derives, equal⟩ := reads ts same
  cases q with
  | value e' => exact ⟨e', derives, Phrase.value.inj equal⟩
  | expr => cases equal
  | items => cases equal

theorem Reads.items {xs : List Lexical} {es : List Expr} {marked : Bool}
    (reads : Reads xs (.items es marked)) {ts : List Token} (same : ts.map Token.lexical = xs) :
    ∃ es', Derives ts (.items es' marked) ∧ es'.map Expr.bare = es.map Expr.bare := by
  obtain ⟨q, derives, equal⟩ := reads ts same
  cases q with
  | items es' marked' =>
    obtain ⟨elements, flag⟩ := Phrase.items.inj equal
    exact ⟨es', flag ▸ derives, elements⟩
  | expr => cases equal
  | value => cases equal

theorem Reads.asExpr {xs : List Lexical} {e : Expr} (reads : Reads xs (.value e)) :
    Reads xs (.expr e) := by
  intro ts same
  obtain ⟨e', derives, equal⟩ := reads.value same
  exact ⟨.expr e', .value derives, congrArg Phrase.expr equal⟩

theorem readsScalar {v : Scalar} (span : Span) (spelled : (Expr.literal v span).Spelled) :
    Reads [v.lexical] (.value (.literal v span)) := by
  intro ts same
  obtain ⟨t, rfl, head⟩ := List.map_eq_singleton_iff.mp same
  have single : scalarOf t = some v := by
    cases v with
    | none => simp [scalarOf, (kindOfLexical head).1]
    | bool b => cases b <;> simp [scalarOf, (kindOfLexical head).1]
    | string s => simp [scalarOf, (kindOfLexical head).1, (kindOfLexical head).2]
    | number x =>
      obtain ⟨m, rfl⟩ := spelled
      obtain ⟨n, shaped, written, value⟩ := Number.numeralOfText m
      have apart : Text.StandsApart [] := fun u none => by cases none
      have back := Numeral.readShaped shaped apart
      rw [List.append_nil, written] at back
      have number : Number.ofNumeral (Number.finite false m).toText = .finite false m := by
        rw [Number.ofNumeral, back, value]
      simp [scalarOf, (kindOfLexical head).1, (kindOfLexical head).2, number]
  exact ⟨_, .scalar single, rfl⟩

theorem readsName (n : Text) (span : Span) :
    Reads [(.identifier, n)] (.value (.name n span)) := by
  intro ts same
  obtain ⟨t, rfl, head⟩ := List.map_eq_singleton_iff.mp same
  obtain ⟨kind, rfl⟩ := kindOfLexical head
  exact ⟨_, .name kind, rfl⟩

theorem readsUnary {op : UnaryOp} {xs : List Lexical} {e : Expr} {span : Span}
    (operand : Reads xs (.expr e)) : Reads ([op.lexical] ++ xs) (.expr (.unary op e span)) := by
  intro ts same
  obtain ⟨t, us, rfl, head, tail⟩ := List.map_eq_cons_iff.mp same
  obtain ⟨e', derives, equal⟩ := operand.expr tail
  have operator : operatorOf t.kind = some op := by
    cases op <;> simp [operatorOf, (kindOfLexical head).1]
  exact ⟨_, .unary operator derives, by simp [Phrase.bare, Expr.bare, equal]⟩

theorem splitBracketed {ts : List Token} {inner : List Lexical} {opener closer : Lexical}
    (same : ts.map Token.lexical = [opener] ++ (inner ++ [closer])) :
    ∃ o us c, ts = o :: (us ++ [c]) ∧ o.lexical = opener ∧ us.map Token.lexical = inner ∧
      c.lexical = closer := by
  rw [List.singleton_append] at same
  obtain ⟨o, rest, rfl, head, tail⟩ := List.map_eq_cons_iff.mp same
  obtain ⟨us, cs, rfl, middle, last⟩ := List.map_eq_append_iff.mp tail
  obtain ⟨c, rfl, closes⟩ := List.map_eq_singleton_iff.mp last
  exact ⟨o, us, c, rfl, head, middle, closes⟩

theorem bareElements {es es' : List Expr} (equal : es'.map Expr.bare = es.map Expr.bare) :
    Expr.bareSlots (elements es') = Expr.bareSlots (elements es) := by
  have elementwise (xs : List Expr) :
      Expr.bareSlots (elements xs) = (xs.map Expr.bare).map some := by
    rw [Expr.bareSlotsEqMap, elements, List.map_map, List.map_map]
    rfl
  rw [elementwise, elementwise, equal]

theorem listComplete (es : List Expr) (marked : Bool) (span : Span) :
    Opening.list.complete es marked span = .sequence .list (elements es) span := by
  rcases es with _ | ⟨x, _ | ⟨y, rest⟩⟩ <;> cases marked <;> rfl

theorem callComplete (callee : Text) (es : List Expr) (marked : Bool) (span : Span) :
    (Opening.call callee).complete es marked span = .call callee es span := by
  rcases es with _ | ⟨x, _ | ⟨y, rest⟩⟩ <;> cases marked <;> rfl

theorem groupComplete {es : List Expr} {marked : Bool} (several : marked = true → es.length ≠ 1)
    (span : Span) : Opening.group.complete es marked span = .sequence .tuple (elements es) span := by
  rcases es with _ | ⟨x, _ | ⟨y, rest⟩⟩ <;> cases marked <;>
    first | rfl | exact absurd rfl (several rfl)

theorem readsSequence {kind : SequenceKind} {xs : List Lexical} {es : List Expr} {marked : Bool}
    {span : Span} (inner : Reads xs (.items es marked))
    (several : kind = .tuple → marked = true → es.length ≠ 1) :
    Reads ([(kind.openKind, kind.opener)] ++ (xs ++ [(kind.closeKind, kind.closer)]))
      (.value (.sequence kind (elements es) span)) := by
  intro ts same
  obtain ⟨o, us, c, rfl, opens, middle, closes⟩ := splitBracketed same
  obtain ⟨es', derives, equal⟩ := inner.items middle
  have count : es'.length = es.length := by
    simpa using congrArg List.length equal
  cases kind with
  | list =>
    refine ⟨_, .list (kindOfLexical opens).1 derives (kindOfLexical closes).1, ?_⟩
    simp [Phrase.bare, listComplete, Expr.bare, bareElements equal]
  | tuple =>
    refine ⟨_, .group (kindOfLexical opens).1 derives (kindOfLexical closes).1, ?_⟩
    rw [groupComplete (fun mark => count ▸ several rfl mark)]
    simp [Phrase.bare, Expr.bare, bareElements equal]

theorem readsGroup {xs : List Lexical} {e : Expr} (inner : Reads xs (.expr e)) :
    Reads ([(.openParen, text "(")] ++ (xs ++ [(.closeParen, text ")")])) (.value e) := by
  intro ts same
  obtain ⟨o, us, c, rfl, opens, middle, closes⟩ := splitBracketed same
  obtain ⟨e', derives, equal⟩ := inner.expr middle
  have items := Derives.lastItem noNewlines derives noNewlines
  rw [List.nil_append, List.append_nil] at items
  exact ⟨_, .group (kindOfLexical opens).1 items (kindOfLexical closes).1,
    congrArg Phrase.value equal⟩

theorem readsCall {xs : List Lexical} {es : List Expr} {marked : Bool} (callee : Text) (span : Span)
    (inner : Reads xs (.items es marked)) :
    Reads ([(.identifier, callee), (.openParen, text "(")] ++ (xs ++ [(.closeParen, text ")")]))
      (.value (.call callee es span)) := by
  intro ts same
  obtain ⟨n, rest, rfl, names, tail⟩ := List.map_eq_cons_iff.mp same
  obtain ⟨o, us, c, rfl, opens, middle, closes⟩ := splitBracketed tail
  obtain ⟨es', derives, equal⟩ := inner.items middle
  obtain ⟨kind, rfl⟩ := kindOfLexical names
  refine ⟨_, .call kind (kindOfLexical opens).1 derives (kindOfLexical closes).1, ?_⟩
  simp [Phrase.bare, callComplete, Expr.bare, Expr.bareAllEqMap, equal]

theorem readsSubscript {xs ys : List Lexical} {object index : Expr} (span : Span)
    (front : Reads xs (.value object)) (inner : Reads ys (.expr index)) :
    Reads (xs ++ ([(.openBracket, text "[")] ++ (ys ++ [(.closeBracket, text "]")])))
      (.value (.subscript object index span)) := by
  intro ts same
  obtain ⟨us, vs, rfl, before, behind⟩ := List.map_eq_append_iff.mp same
  obtain ⟨o, ws, c, rfl, opens, middle, closes⟩ := splitBracketed behind
  obtain ⟨object', derives, equal⟩ := front.value before
  obtain ⟨index', derives', equal'⟩ := inner.expr middle
  have whole := Derives.subscript derives (kindOfLexical opens).1 noNewlines derives' noNewlines
    (kindOfLexical closes).1
  rw [List.nil_append, List.append_nil] at whole
  exact ⟨_, whole, by simp [Phrase.bare, Expr.bare, equal, equal']⟩

theorem readsNoItem : Reads [] (.items [] false) := by
  intro ts same
  rw [List.map_eq_nil_iff.mp same]
  exact ⟨_, .noItem noNewlines, rfl⟩

theorem readsLastItem {xs : List Lexical} {e : Expr} (item : Reads xs (.expr e)) :
    Reads xs (.items [e] true) := by
  intro ts same
  obtain ⟨e', derives, equal⟩ := item.expr same
  have items := Derives.lastItem noNewlines derives noNewlines
  rw [List.nil_append, List.append_nil] at items
  exact ⟨_, items, by simp [Phrase.bare, equal]⟩

theorem readsMoreItems {xs ys : List Lexical} {e : Expr} {es : List Expr} {marked : Bool}
    (item : Reads xs (.expr e)) (others : Reads ys (.items es marked)) :
    Reads (xs ++ ([commaLexical] ++ ys)) (.items (e :: es) marked) := by
  intro ts same
  obtain ⟨us, vs, rfl, before, behind⟩ := List.map_eq_append_iff.mp same
  obtain ⟨c, ws, rfl, mark, rest⟩ := List.map_eq_cons_iff.mp behind
  obtain ⟨e', derives, equal⟩ := item.expr before
  obtain ⟨es', derives', equal'⟩ := others.items rest
  have items := Derives.moreItems noNewlines derives noNewlines (kindOfLexical mark).1 derives'
  rw [List.nil_append, List.append_nil] at items
  exact ⟨_, items, by simp [Phrase.bare, equal, equal']⟩

theorem Derives.trailingComma {ts : List Token} {p : Phrase} (derives : Derives ts p) {c : Token}
    (mark : c.kind = .comma) :
    ∀ es, p = .items es true → Derives (ts ++ [c]) (.items es false) := by
  induction derives with
  | lastItem before item behind =>
    intro es same
    cases same
    exact .moreItems before item behind mark (.noItem noNewlines)
  | moreItems before item behind separator others ihItem ihOthers =>
    intro es same
    cases same
    have more := Derives.moreItems before item behind separator (ihOthers _ rfl)
    rwa [← List.cons_append, ← List.append_assoc] at more
  | _ => intro es same; cases same

theorem readsTrailingComma {xs : List Lexical} {es : List Expr} (items : Reads xs (.items es true)) :
    Reads (xs ++ [commaLexical]) (.items es false) := by
  intro ts same
  obtain ⟨us, cs, rfl, before, last⟩ := List.map_eq_append_iff.mp same
  obtain ⟨c, rfl, mark⟩ := List.map_eq_singleton_iff.mp last
  obtain ⟨es', derives, equal⟩ := items.items before
  exact ⟨_, derives.trailingComma (kindOfLexical mark).1 _ rfl, by simp [Phrase.bare, equal]⟩

/-- What printed elements are read as: by themselves, and behind an element that stands before
them. The argument of the function is what stands before the first of them. -/
structure ReadsItems (lexicals : List Lexical → Except Cause (List Lexical)) (es : List Expr) :
    Prop where
  alone : ∃ xs, lexicals [] = .ok xs ∧ Reads xs (.items es !es.isEmpty)
  behind : ∃ xs, lexicals [commaLexical] = .ok xs ∧
    ∀ ys x, Reads ys (.expr x) → Reads (ys ++ xs) (.items (x :: es) true)

theorem readsItemsNil {lexicals : List Lexical → Except Cause (List Lexical)}
    (none : ∀ lead, lexicals lead = .ok []) : ReadsItems lexicals [] where
  alone := ⟨[], none [], readsNoItem⟩
  behind := ⟨[], none _, fun ys x item => by rw [List.append_nil]; exact readsLastItem item⟩

theorem readsItemsCons {lexicals : List Lexical → Except Cause (List Lexical)} {e : Expr}
    {es : List Expr} {xs : List Lexical} {rest : Except Cause (List Lexical)}
    (first : ∀ lead, lexicals lead = joined (.ok lead) (joined (.ok xs) rest))
    (item : Reads xs (.expr e)) (others : ∃ ys, rest = .ok ys ∧
      ∀ zs x, Reads zs (.expr x) → Reads (zs ++ ys) (.items (x :: es) true)) :
    ReadsItems lexicals (e :: es) := by
  obtain ⟨ys, rfl, behind⟩ := others
  exact {
    alone := ⟨xs ++ ys, first [], behind xs e item⟩
    behind := ⟨commaLexical :: (xs ++ ys), first [commaLexical], fun zs x before =>
      readsMoreItems before (behind xs e item)⟩ }

end Parser

namespace Expr
open SeqScript.Parser

theorem readsElements {xs : List Lexical} {es : List Expr} (kind : SequenceKind) (span : Span)
    (inner : Reads xs (.items es !es.isEmpty)) :
    Reads ([(kind.openKind, kind.opener)] ++
        (xs ++ (((kind.lastComma es.length).map fun t => (.comma, t)) ++
          [(kind.closeKind, kind.closer)])))
      (.value (.sequence kind (elements es) span)) := by
  rw [← List.append_assoc xs]
  unfold SequenceKind.lastComma
  split
  · rename_i single
    obtain ⟨e, rfl⟩ := List.length_eq_one_iff.mp single.2
    exact readsSequence (readsTrailingComma inner) fun _ marked => by cases marked
  · rename_i several
    rw [List.map_nil, List.append_nil]
    exact readsSequence inner fun tuple _ one => several ⟨tuple, one⟩

mutual

theorem readsExpr {e : Expr} (spelled : e.Spellable) (full : e.Full) :
    ∃ xs, e.lexicals = .ok xs ∧ Reads xs (.expr e) ∧ (e.isUnary = false → Reads xs (.value e)) := by
  match e with
  | literal v span =>
    have reads := readsScalar span spelled
    exact ⟨_, rfl, reads.asExpr, fun _ => reads⟩
  | sequence kind slots span =>
    obtain ⟨es, rfl, items⟩ := readsSlots spelled.2 full.2
    obtain ⟨xs, written, reads⟩ := items.alone
    have whole := readsElements kind span reads
    refine ⟨_, ?_, whole.asExpr, fun _ => whole⟩
    rw [lexicals, written, elements, List.length_map]
    rfl
  | name n span => exact ⟨_, rfl, (readsName n span).asExpr, fun _ => readsName n span⟩
  | call callee args span =>
    obtain ⟨xs, written, reads⟩ := (readsArgs spelled.2 full.2).alone
    have whole := readsCall callee span reads
    refine ⟨_, ?_, whole.asExpr, fun _ => whole⟩
    rw [lexicals, written]
    rfl
  | subscript object index span =>
    obtain ⟨xs, written, asExpr, asValue⟩ := readsExpr spelled.2.1 full.2.1
    obtain ⟨ys, inside, reads, _⟩ := readsExpr spelled.2.2 full.2.2
    by_cases unary : object.isUnary = true
    · have whole := readsSubscript span (readsGroup asExpr) reads
      refine ⟨_, ?_, whole.asExpr, fun _ => whole⟩
      rw [lexicals, written, inside, if_pos unary]
      rfl
    · have whole := readsSubscript span (asValue (Bool.eq_false_iff.mpr unary)) reads
      refine ⟨_, ?_, whole.asExpr, fun _ => whole⟩
      rw [lexicals, written, inside, if_neg unary]
      rfl
  | unary op operand span =>
    obtain ⟨xs, written, reads, _⟩ := readsExpr spelled.2 full.2
    refine ⟨_, ?_, readsUnary reads, fun no => by cases no⟩
    rw [lexicals, written]
    rfl

theorem readsSlots {slots : List (Option Expr)} (spelled : AllSlots Spelled True slots)
    (full : AllSlots (fun _ => True) False slots) :
    ∃ es, slots = elements es ∧ ReadsItems (slotLexicals · slots) es := by
  match slots with
  | [] => exact ⟨[], rfl, readsItemsNil fun _ => rfl⟩
  | none :: rest => exact full.1.elim
  | some e :: rest =>
    obtain ⟨xs, written, reads, _⟩ := readsExpr spelled.1 full.1
    obtain ⟨es, rfl, items⟩ := readsSlots spelled.2 full.2
    exact ⟨e :: es, rfl, readsItemsCons (fun lead => by rw [slotLexicals, written]) reads items.behind⟩

theorem readsArgs {args : List Expr} (spelled : AllArgs Spelled True args)
    (full : AllArgs (fun _ => True) False args) : ReadsItems (argLexicals · args) args := by
  match args with
  | [] => exact readsItemsNil fun _ => rfl
  | e :: rest =>
    obtain ⟨xs, written, reads, _⟩ := readsExpr spelled.1 full.1
    exact readsItemsCons (fun lead => by rw [argLexicals, written]) reads
      (readsArgs spelled.2 full.2).behind

end

mutual

theorem lexicalsOfHole {e : Expr} (spelled : e.Spellable) (hole : ¬ e.Full) :
    e.lexicals = .error holeCause := by
  match e with
  | literal _ _ => exact absurd trivial hole
  | name _ _ => exact absurd trivial hole
  | sequence kind slots span =>
    rw [lexicals, slotLexicalsOfHole spelled.2 fun full => hole ⟨trivial, full⟩]
    rfl
  | call callee args span =>
    rw [lexicals, argLexicalsOfHole spelled.2 fun full => hole ⟨trivial, full⟩]
    rfl
  | subscript object index span =>
    rw [lexicals]
    by_cases full : object.Full
    · have inside := lexicalsOfHole spelled.2.2 fun index => hole ⟨trivial, full, index⟩
      obtain ⟨xs, written, _⟩ := readsExpr spelled.2.1 full
      rw [written, inside]
      split <;> rfl
    · rw [lexicalsOfHole spelled.2.1 full]
      split <;> rfl
  | unary op operand span =>
    rw [lexicals, lexicalsOfHole spelled.2 fun full => hole ⟨trivial, full⟩]
    rfl

theorem slotLexicalsOfHole {slots : List (Option Expr)} {lead : List Lexical}
    (spelled : AllSlots Spelled True slots) (hole : ¬ AllSlots (fun _ => True) False slots) :
    slotLexicals lead slots = .error holeCause := by
  match slots with
  | [] => exact absurd trivial hole
  | none :: rest => rfl
  | some e :: rest =>
    rw [slotLexicals]
    by_cases full : e.Full
    · obtain ⟨xs, written, _⟩ := readsExpr spelled.1 full
      rw [written, slotLexicalsOfHole spelled.2 fun others => hole ⟨full, others⟩]
      rfl
    · rw [lexicalsOfHole spelled.1 full]
      rfl

theorem argLexicalsOfHole {args : List Expr} {lead : List Lexical}
    (spelled : AllArgs Spelled True args) (hole : ¬ AllArgs (fun _ => True) False args) :
    argLexicals lead args = .error holeCause := by
  match args with
  | [] => exact absurd trivial hole
  | e :: rest =>
    rw [argLexicals]
    by_cases full : e.Full
    · obtain ⟨xs, written, _⟩ := readsExpr spelled.1 full
      rw [written, argLexicalsOfHole spelled.2 fun others => hole ⟨full, others⟩]
      rfl
    · rw [lexicalsOfHole spelled.1 full]
      rfl

end

end Expr

end SeqScript
