import SeqScript.Proofs.Token.Tiling
import SeqScript.Proofs.Tree.Accepts
import SeqScript.Proofs.Tree.RoundTrip

/-! Scripts that were read, printed and read again. Whatever the parser makes of a text can be
printed and read. The tree that comes back is the first one, but for literals of numbers beyond all
finite ones: these are written as a word, and the word is read as a name. -/
namespace SeqScript
open Lexer

namespace Lexer

def Named (t : Token) : Prop := t.kind = .identifier → IsName t.value

theorem unitNoName {u : CodeUnit} {kind : TokenKind} (found : TokenKind.ofUnit u = some kind) :
    kind ≠ .identifier := by
  unfold TokenKind.ofUnit at found
  repeat' split at found
  all_goals cases found <;> decide

theorem lexemeNamed {u : CodeUnit} {rest : Text} {l : Lexeme} (found : lexemeAt u rest = .ok l)
    (names : l.kind = .identifier) : IsName l.value := by
  unfold lexemeAt at found
  split at found
  · cases found
    cases names
  split at found
  · unfold stringAt at found
    split at found <;> cases found
    cases names
  split at found
  · cases found
    cases names
  split at found
  · rename_i start
    cases found
    have word : IsWord (u :: rest.takeWhile CodeUnit.isNamePart) :=
      wordOf start (List.all_eq_true.mpr fun v member => List.mem_takeWhile_imp member)
    exact ⟨word, names⟩
  split at found
  · rename_i kind single
    cases found
    exact absurd names (unitNoName single)
  · cases found

theorem tokensFromNamed {depth : Nat} {here : Location} {t : Text} {ts : List Token}
    (ok : tokensFrom depth here t = .ok ts) : ∀ u ∈ ts, Named u := by
  fun_induction tokensFrom depth here t generalizing ts with
  | case1 =>
    cases ok
    intro u member names
    cases List.mem_singleton.mp member
    cases names
  | case2 => cases ok
  | case3 _ _ _ _ _ _ _ _ l found =>
    rename_i others ih
    cases ok
    exact List.forall_mem_cons.mpr ⟨lexemeNamed found, ih others⟩
  | case4 => cases ok

end Lexer

namespace Expr

def Readable : Expr → Prop
  | literal (.number x) _ => (∃ m, x = .finite false m) ∨ x = .infinite false
  | name n _ => IsName n
  | call callee _ _ => IsName callee
  | _ => True

def Finite : Expr → Prop
  | literal (.number x) _ => ∀ negative, x ≠ .infinite negative
  | _ => True

end Expr

def Statement.Readable : Statement → Prop
  | .expression e _ => e.All Expr.Readable False
  | .assignment target value _ => IsName target ∧ value.All Expr.Readable False

namespace Number

theorem ofUnitsReadable (n d : Nat) :
    (∃ m, ofUnits false n d = .finite false m) ∨ ofUnits false n d = .infinite false := by
  unfold ofUnits
  split
  · exact .inl ⟨_, rfl⟩
  · exact .inr rfl

theorem ofNumeralReadable (t : Text) :
    (∃ m, ofNumeral t = .finite false m) ∨ ofNumeral t = .infinite false := by
  unfold ofNumeral Numeral.toNumber Decimal.toNumber
  split
  · exact ofUnitsReadable _ _
  split
  · exact .inr rfl
  split
  · exact ofUnitsReadable _ _
  · exact ofUnitsReadable _ _

end Number

namespace Parser
open SeqScript.Expr

def Phrase.Readable : Phrase → Prop
  | .expr e | .value e => e.All Expr.Readable False
  | .items es _ => ∀ e ∈ es, e.All Expr.Readable False

theorem scalarReadable {t : Token} {v : Scalar} (single : scalarOf t = some v) (span : Span) :
    (literal v span).Readable := by
  unfold scalarOf at single
  split at single <;> cases single
  · exact Number.ofNumeralReadable t.value
  all_goals trivial

theorem wholeReadable {o : Opening} {es : List Expr} (span : Span)
    (callee : ∀ name, o = .call name → IsName name) (readable : ∀ e ∈ es, e.All Expr.Readable False) :
    (o.whole es span).All Expr.Readable False := by
  cases o with
  | list => exact ⟨trivial, allSlotsOfElements readable⟩
  | group => exact ⟨trivial, allSlotsOfElements readable⟩
  | call name => exact ⟨callee name rfl, allArgsIff.mpr readable⟩

theorem completeReadable {o : Opening} {es : List Expr} {marked : Bool} (span : Span)
    (callee : ∀ name, o = .call name → IsName name) (readable : ∀ e ∈ es, e.All Expr.Readable False) :
    (o.complete es marked span).All Expr.Readable False := by
  unfold Opening.complete
  split
  · exact readable _ List.mem_cons_self
  · exact wholeReadable span callee readable

theorem Derives.readable {ts : List Token} {p : Phrase} (derives : Derives ts p)
    (named : ∀ t ∈ ts, Named t) : p.Readable := by
  induction derives with
  | unary operator operand ih => exact ⟨trivial, ih fun u member => named u (List.mem_cons_of_mem _ member)⟩
  | value inner ih => exact ih named
  | scalar single => exact scalarReadable single _
  | name kind => exact named _ List.mem_cons_self kind
  | list opener inner closer ih =>
    exact completeReadable _ nofun (ih fun u member => named u (by simp [member]))
  | group opener inner closer ih =>
    exact completeReadable _ nofun (ih fun u member => named u (by simp [member]))
  | call callee opener inner closer ih =>
    refine completeReadable _ (fun name same => ?_) (ih fun u member => named u (by simp [member]))
    cases same
    exact named _ List.mem_cons_self callee
  | subscript object opener before index behind closer ihObject ihIndex =>
    exact ⟨trivial, ihObject fun u member => named u (by simp [member]),
      ihIndex fun u member => named u (by simp [member])⟩
  | noItem => exact nofun
  | lastItem before item behind ih =>
    exact List.forall_mem_singleton.mpr (ih fun u member => named u (by simp [member]))
  | moreItems before item behind separator others ihItem ihOthers =>
    exact List.forall_mem_cons.mpr ⟨ihItem fun u member => named u (by simp [member]),
      ihOthers fun u member => named u (by simp [member])⟩

theorem DerivesStatement.readable {ts : List Token} {s : Statement} (derives : DerivesStatement ts s)
    (named : ∀ t ∈ ts, Named t) : s.Readable := by
  cases derives with
  | assignment target sign value =>
    exact ⟨named _ List.mem_cons_self target, value.readable fun u member => named u (by simp [member])⟩
  | expression inner => exact inner.readable named

theorem DerivesLines.readable {ts : List Token} {ss : List Statement} (derives : DerivesLines ts ss)
    (named : ∀ t ∈ ts, Named t) : ∀ s ∈ ss, s.Readable := by
  induction derives with
  | none => exact nofun
  | last before statement =>
    exact List.forall_mem_singleton.mpr (statement.readable fun u member => named u (by simp [member]))
  | more before statement separator others ih =>
    exact List.forall_mem_cons.mpr ⟨statement.readable fun u member => named u (by simp [member]),
      ih fun u member => named u (by simp [member])⟩

theorem scriptDerived {source : Text} {s : Script} (read : script source = .ok s) :
    ∃ ts last, tokenize source = .ok (ts ++ [last]) ∧ DerivesLines ts s.statements := by
  unfold script at read
  split at read
  · rename_i tokens lexed
    have whole : source = [] ++ source := rfl
    obtain ⟨ts, last, rfl, _, inner⟩ := (tokensFromTiled whole rfl lexed).last
    have found := read
    unfold scriptOfTokens at read
    split at read
    · rename_i ran
      obtain ⟨rest, ⟨d⟩⟩ := runDemands ran
      obtain ⟨us, e, ss, same, stop, derives, _⟩ := scriptCovers d
      obtain ⟨rfl, rfl, _⟩ := endsAtLast inner stop same
      rw [scriptAccepted derives stop] at found
      cases found
      exact ⟨ts, last, lexed, derives⟩
    · cases read
    · cases read
  · cases read

theorem scriptReadable {source : Text} {s : Script} (read : script source = .ok s) :
    ∀ t ∈ s.statements, t.Readable := by
  obtain ⟨ts, last, lexed, derives⟩ := scriptDerived read
  have named := tokensFromNamed lexed
  exact derives.readable fun t member => named t (List.mem_append_left _ member)

end Parser

/-- A scalar as its own text reads: without bounds a number is a word. -/
def Scalar.reread (span : Span) : Scalar → Expr
  | .number (.infinite false) => .name (text "Infinity") span
  | value => .literal value span

namespace Expr

mutual

def reread : Expr → Expr
  | literal value span => value.reread span
  | sequence kind elements span => sequence kind (rereadSlots elements) span
  | name n span => name n span
  | call callee args span => call callee (rereadArgs args) span
  | subscript object index span => subscript object.reread index.reread span
  | unary op operand span => unary op operand.reread span

def rereadSlots : List (Option Expr) → List (Option Expr)
  | [] => []
  | none :: rest => none :: rereadSlots rest
  | some e :: rest => some e.reread :: rereadSlots rest

def rereadArgs : List Expr → List Expr
  | [] => []
  | e :: rest => e.reread :: rereadArgs rest

end

theorem rereadSlotsLength (slots : List (Option Expr)) :
    (rereadSlots slots).length = slots.length := by
  induction slots with
  | nil => simp [rereadSlots]
  | cons slot rest ih => cases slot <;> simp [rereadSlots, ih]

theorem rereadScalar (value : Scalar) (span : Span) :
    value.reread span = .literal value span ∨
      value = .number (.infinite false) ∧ value.reread span = .name (text "Infinity") span := by
  unfold Scalar.reread
  split
  · exact .inr ⟨rfl, rfl⟩
  · exact .inl rfl

theorem rereadUnary (e : Expr) : e.reread.isUnary = e.isUnary := by
  cases e with
  | literal value span =>
    rw [reread]
    rcases rereadScalar value span with same | ⟨rfl, same⟩
    · rw [same]
    · rw [same]
      rfl
  | _ => rfl

mutual

theorem rereadPieces (e : Expr) : e.reread.pieces = e.pieces := by
  match e with
  | literal value span =>
    rw [reread]
    rcases rereadScalar value span with same | ⟨rfl, same⟩
    · rw [same]
    · rw [same]
      rfl
  | sequence kind elements span =>
    rw [reread, pieces, pieces, rereadSlotPieces, rereadSlotsLength]
  | name n span => rfl
  | call callee args span => rw [reread, pieces, pieces, rereadArgPieces]
  | subscript object index span =>
    rw [reread, pieces, pieces, rereadUnary, rereadPieces object, rereadPieces index]
  | unary op operand span => rw [reread, pieces, pieces, rereadPieces operand]

theorem rereadSlotPieces (separator : Text) (slots : List (Option Expr)) :
    slotPieces separator (rereadSlots slots) = slotPieces separator slots := by
  match slots with
  | [] => rfl
  | none :: rest => rw [rereadSlots, slotPieces, slotPieces, rereadSlotPieces comma rest]
  | some e :: rest =>
    rw [rereadSlots, slotPieces, slotPieces, rereadPieces e, rereadSlotPieces comma rest]

theorem rereadArgPieces (separator : List Text) (args : List Expr) :
    argPieces separator (rereadArgs args) = argPieces separator args := by
  match args with
  | [] => rfl
  | e :: rest =>
    rw [rereadArgs, argPieces, argPieces, rereadPieces e, rereadArgPieces [comma] rest]

end

theorem nameInfinity : IsName (text "Infinity") := by
  have word : IsWord (unit 'I' :: text "nfinity") := wordOf rfl rfl
  exact ⟨word, rfl⟩

theorem scalarSpelled {value : Scalar} {span : Span} (readable : (literal value span).Readable) :
    (value.reread span).All Spelled False := by
  rcases rereadScalar value span with same | ⟨rfl, same⟩
  · rw [same]
    cases value with
    | number x =>
      rcases readable with finite | rfl
      · exact finite
      · cases same
    | _ => trivial
  · rw [same]
    exact nameInfinity

mutual

theorem rereadSpelled {e : Expr} (readable : e.All Readable False) :
    e.reread.All Spelled False := by
  match e with
  | literal value span => exact scalarSpelled readable
  | sequence kind elements span => exact ⟨trivial, rereadSlotsSpelled readable.2⟩
  | name n span => exact readable
  | call callee args span => exact ⟨readable.1, rereadArgsSpelled readable.2⟩
  | subscript object index span =>
    exact ⟨trivial, rereadSpelled readable.2.1, rereadSpelled readable.2.2⟩
  | unary op operand span => exact ⟨trivial, rereadSpelled readable.2⟩

theorem rereadSlotsSpelled {slots : List (Option Expr)} (readable : AllSlots Readable False slots) :
    AllSlots Spelled False (rereadSlots slots) := by
  match slots with
  | [] => trivial
  | none :: rest => exact readable.1.elim
  | some e :: rest => exact ⟨rereadSpelled readable.1, rereadSlotsSpelled readable.2⟩

theorem rereadArgsSpelled {args : List Expr} (readable : AllArgs Readable False args) :
    AllArgs Spelled False (rereadArgs args) := by
  match args with
  | [] => trivial
  | e :: rest => exact ⟨rereadSpelled readable.1, rereadArgsSpelled readable.2⟩

end

theorem scalarFinite {value : Scalar} {span : Span} (readable : (literal value span).Readable) :
    (value.reread span).bare = (literal value span).bare ↔ (literal value span).Finite := by
  rcases rereadScalar value span with same | ⟨rfl, same⟩
  · rw [same]
    refine iff_of_true rfl ?_
    cases value with
    | number x =>
      rcases readable with ⟨m, rfl⟩ | rfl
      · exact fun negative => nofun
      · cases same
    | _ => trivial
  · rw [same]
    refine iff_of_false nofun fun finite => finite false rfl

mutual

theorem rereadFinite {e : Expr} (readable : e.All Readable False) :
    e.reread.bare = e.bare ↔ e.All Finite False := by
  match e with
  | literal value span => exact scalarFinite readable
  | sequence kind elements span =>
    have inner := rereadSlotsFinite readable.2
    simp only [reread, bare, sequence.injEq, true_and, and_true, inner, All, Finite]
  | name n span => exact iff_of_true rfl trivial
  | call callee args span =>
    have inner := rereadArgsFinite readable.2
    simp only [reread, bare, call.injEq, true_and, and_true, inner, All, Finite]
  | subscript object index span =>
    have front := rereadFinite readable.2.1
    have inner := rereadFinite readable.2.2
    simp only [reread, bare, subscript.injEq, true_and, and_true, front, inner, All, Finite]
  | unary op operand span =>
    have inner := rereadFinite readable.2
    simp only [reread, bare, unary.injEq, true_and, and_true, inner, All, Finite]

theorem rereadSlotsFinite {slots : List (Option Expr)} (readable : AllSlots Readable False slots) :
    bareSlots (rereadSlots slots) = bareSlots slots ↔ AllSlots Finite False slots := by
  match slots with
  | [] => exact iff_of_true rfl trivial
  | none :: rest => exact readable.1.elim
  | some e :: rest =>
    have first := rereadFinite readable.1
    have others := rereadSlotsFinite readable.2
    simp only [rereadSlots, bareSlots, List.cons.injEq, Option.some.injEq, first, others, AllSlots]

theorem rereadArgsFinite {args : List Expr} (readable : AllArgs Readable False args) :
    bareAll (rereadArgs args) = bareAll args ↔ AllArgs Finite False args := by
  match args with
  | [] => exact iff_of_true rfl trivial
  | e :: rest =>
    have first := rereadFinite readable.1
    have others := rereadArgsFinite readable.2
    simp only [rereadArgs, bareAll, List.cons.injEq, first, others, AllArgs]

end

end Expr

namespace Statement

def reread : Statement → Statement
  | expression e span => expression e.reread span
  | assignment target value span => assignment target value.reread span

def Finite (s : Statement) : Prop := s.expr.All Expr.Finite False

theorem rereadPieces (s : Statement) : s.reread.pieces = s.pieces := by
  cases s <;> simp only [reread, pieces, Expr.rereadPieces]

theorem rereadSpelled {s : Statement} (readable : s.Readable) :
    s.reread.Spellable ∧ s.reread.Full := by
  have both {e : Expr} (readable : e.All Expr.Readable False) :
      e.reread.Spellable ∧ e.reread.Full :=
    ⟨(Expr.rereadSpelled readable).weaken (fun _ spelled => spelled) False.elim,
      (Expr.rereadSpelled readable).weaken (fun _ _ => trivial) id⟩
  cases s with
  | expression e span => exact both readable
  | assignment target value span => exact ⟨⟨readable.1, (both readable.2).1⟩, (both readable.2).2⟩

theorem rereadFinite {s : Statement} (readable : s.Readable) :
    s.reread.bare = s.bare ↔ s.Finite := by
  cases s with
  | expression e span =>
    simp only [reread, bare, expression.injEq, and_true, Expr.rereadFinite readable, Finite, expr]
  | assignment target value span =>
    simp only [reread, bare, assignment.injEq, true_and, and_true, Expr.rereadFinite readable.2,
      Finite, expr]

end Statement

namespace Script

def reread (s : Script) : Script := ⟨s.statements.map Statement.reread, s.span⟩

def Finite (s : Script) : Prop := ∀ t ∈ s.statements, t.Finite

theorem rereadPieces (separator : List Text) (ss : List Statement) :
    statementPieces separator (ss.map Statement.reread) = statementPieces separator ss := by
  induction ss generalizing separator with
  | nil => rfl
  | cons s ss ih => simp only [List.map_cons, statementPieces, Statement.rereadPieces, ih]

theorem rereadFinite {s : Script} (readable : ∀ t ∈ s.statements, t.Readable) :
    s.reread.bare = s.bare ↔ s.Finite := by
  simp only [bare, reread, Script.mk.injEq, and_true, List.map_map, List.map_inj_left, Finite]
  exact forall₂_congr fun t member => Statement.rereadFinite (readable t member)

end Script

namespace Parser

/- Whatever was read is printed as a text that is read again, and comes back as the same tree, places
apart, exactly if all its numbers are finite. A number beyond them comes back as a name. -/
theorem readPrintedRead (source : Text) (s : Script) (read : script source = .ok s) :
    ∃ r, script (Node.script s).printed = .ok r ∧ r.bare = s.reread.bare ∧
      (r.bare = s.bare ↔ s.Finite) := by
  have readable := scriptReadable read
  have spelled : ∀ t ∈ s.reread.statements, t.Spellable ∧ t.Full :=
    List.forall_mem_map.mpr fun t member => Statement.rereadSpelled (readable t member)
  have printed : (Node.script s.reread).printed = (Node.script s).printed :=
    congrArg List.flatten (Script.rereadPieces [] s.statements)
  have lexes := Script.lexesLines (fun t member => (spelled t member).1) [] (lexesNothing 0)
  obtain ⟨xs, written, reads⟩ := Script.readsScript (fun t member => (spelled t member).1)
    fun t member => (spelled t member).2
  rw [written] at lexes
  obtain ⟨ts, last, same, ends, tokens⟩ := tokenizeLexed lexes
  obtain ⟨ss, lines, equal⟩ := reads ts same
  have whole : (Script.mk ss ⟨startOf (ts ++ [last]), last.span.stop⟩).bare = s.reread.bare :=
    congrArg (Script.mk · .synthetic) equal
  refine ⟨_, ?_, whole, ?_⟩
  · rw [← printed]
    exact (scriptOfTokenized tokens).trans (scriptAccepted lines ends)
  · rw [whole]
    exact Script.rereadFinite readable

section

def wholeLine (kind : TokenKind) (value : Text) : List Token :=
  [⟨kind, value, ⟨.first, Location.first.after value⟩⟩,
    ⟨.endOfInput, [], ⟨Location.first.after value, Location.first.after value⟩⟩]

theorem hugeTokens : tokenize (text "1e999") = .ok (wholeLine .number (text "1e999")) := by
  have huge : lexemeAt (unit '1') (text "e999") = .ok ⟨.number, text "1e999", text "1e999", []⟩ := rfl
  have source : text "1e999" = unit '1' :: text "e999" := rfl
  rw [tokenize, source, tokensFromLexeme rfl huge, tokensFromEnd rfl]
  rfl

theorem wordTokens : tokenize (text "Infinity") = .ok (wholeLine .identifier (text "Infinity")) := by
  have word : lexemeAt (unit 'I') (text "nfinity") =
      .ok ⟨.identifier, text "Infinity", text "Infinity", []⟩ := rfl
  have source : text "Infinity" = unit 'I' :: text "nfinity" := rfl
  rw [tokenize, source, tokensFromLexeme rfl word, tokensFromEnd rfl]
  rfl

def lineOf (e : Expr) : Script := ⟨[.expression e e.span], e.span⟩

def hugeLiteral : Expr := .literal (.number (.infinite false)) ⟨.first, ⟨1, 6, 5⟩⟩

theorem hugeRead : script (text "1e999") = .ok (lineOf hugeLiteral) := by
  rw [script, hugeTokens]
  rfl

theorem wordRead :
    script (text "Infinity") = .ok (lineOf (.name (text "Infinity") ⟨.first, ⟨1, 9, 8⟩⟩)) := by
  rw [script, wordTokens]
  rfl

theorem hugeNumberLost : ¬ ∀ source s, script source = .ok s →
    ∃ r, script (Node.script s).printed = .ok r ∧ r.bare = s.bare := by
  intro preserved
  obtain ⟨r, read, same⟩ := preserved _ _ hugeRead
  have printed : (Node.script (lineOf hugeLiteral)).printed = text "Infinity" := rfl
  rw [printed, wordRead] at read
  cases read
  cases same

theorem hugeNumberReread : script (text "1e999") = .ok (lineOf hugeLiteral) ∧
    ∃ r, script (Node.script (lineOf hugeLiteral)).printed = .ok r ∧
      r.bare = (lineOf hugeLiteral).reread.bare ∧
      (r.bare = (lineOf hugeLiteral).bare ↔ (lineOf hugeLiteral).Finite) :=
  ⟨hugeRead, readPrintedRead _ _ hugeRead⟩

end

end Parser

end SeqScript
