import SeqScript.Proofs.Token.Adjacent
import SeqScript.Proofs.Tree.Nodes
import SeqScript.Tree.Printer

/-! What the lexer makes of printed trees. A tree whose names are names and whose numbers are finite
and have no sign lexes to the tokens it was printed from; an empty element slot stops the lexer at
the first unit of its text. -/
namespace SeqScript
open Lexer CodeUnit Text

def IsName (t : Text) : Prop := IsWord t ∧ TokenKind.ofWord t = .identifier

def Scalar.lexical : Scalar → Lexical
  | .none => (.noneWord, text "None")
  | .bool true => (.trueWord, text "True")
  | .bool false => (.falseWord, text "False")
  | .number x => (.number, x.toText)
  | .string t => (.string, t)

def SequenceKind.openKind : SequenceKind → TokenKind
  | .list => .openBracket
  | .tuple => .openParen

def SequenceKind.closeKind : SequenceKind → TokenKind
  | .list => .closeBracket
  | .tuple => .closeParen

def UnaryOp.lexical : UnaryOp → Lexical
  | .negate => (.minus, text "-")
  | .not => (.notWord, text "not")

def holeCause : Cause := .unexpectedCharacter (unit '<')

def commaLexical : Lexical := (.comma, text ",")

namespace Expr

def Spelled : Expr → Prop
  | literal (.number x) _ => ∃ m, x = .finite false m
  | name n _ => IsName n
  | call callee _ _ => IsName callee
  | _ => True

abbrev Spellable (e : Expr) : Prop := e.All Spelled True

mutual

def lexicals : Expr → Except Cause (List Lexical)
  | literal value _ => .ok [value.lexical]
  | sequence kind elements _ =>
    joined (.ok [(kind.openKind, kind.opener)]) (joined (slotLexicals [] elements)
      (.ok (((kind.lastComma elements.length).map fun t => (.comma, t)) ++
        [(kind.closeKind, kind.closer)])))
  | name n _ => .ok [(.identifier, n)]
  | call callee args _ =>
    joined (.ok [(.identifier, callee), (.openParen, text "(")])
      (joined (argLexicals [] args) (.ok [(.closeParen, text ")")]))
  | subscript object index _ =>
    joined
      (if object.isUnary then joined (.ok [(.openParen, text "(")])
        (joined object.lexicals (.ok [(.closeParen, text ")")]))
      else object.lexicals)
      (joined (.ok [(.openBracket, text "[")])
        (joined index.lexicals (.ok [(.closeBracket, text "]")])))
  | unary op operand _ => joined (.ok [op.lexical]) operand.lexicals

def slotLexicals (lead : List Lexical) : List (Option Expr) → Except Cause (List Lexical)
  | [] => .ok []
  | none :: _ => joined (.ok lead) (.error holeCause)
  | some e :: rest => joined (.ok lead) (joined e.lexicals (slotLexicals [commaLexical] rest))

def argLexicals (lead : List Lexical) : List Expr → Except Cause (List Lexical)
  | [] => .ok []
  | e :: rest => joined (.ok lead) (joined e.lexicals (argLexicals [commaLexical] rest))

end

end Expr

namespace Lexer

theorem standsApartCons {u : CodeUnit} (apart : u.isNamePart = false ∧ u ≠ unit '.') (t : Text) :
    StandsApart (u :: t) := by
  intro v head
  cases Option.some.inj head
  exact apart

theorem spaceApart (t : Text) : StandsApart (unit ' ' :: t) := standsApartCons (by decide) t

theorem openerApart (kind : SequenceKind) (t : Text) : StandsApart (kind.opener ++ t) := by
  cases kind with
  | list => exact standsApartCons (u := unit '[') (by decide) t
  | tuple => exact standsApartCons (u := unit '(') (by decide) t

theorem closerApart (kind : SequenceKind) (t : Text) : StandsApart (kind.closer ++ t) := by
  cases kind with
  | list => exact standsApartCons (u := unit ']') (by decide) t
  | tuple => exact standsApartCons (u := unit ')') (by decide) t

theorem lexesKeyword {word : Text} {k : TokenKind} (shaped : IsWord word)
    (reserved : TokenKind.ofWord word = k) (depth : Nat) :
    Lexes depth word (.ok [(k, word)]) depth StandsApart := reserved ▸ lexesWord shaped depth

theorem lexesScalar {value : Scalar} {span : Span} (spelled : (Expr.literal value span).Spelled)
    (depth : Nat) : Lexes depth value.written (.ok [value.lexical]) depth StandsApart := by
  cases value with
  | none =>
    have word : IsWord (unit 'N' :: text "one") := wordOf rfl rfl
    exact lexesKeyword word rfl depth
  | bool b =>
    cases b with
    | true =>
      have word : IsWord (unit 'T' :: text "rue") := wordOf rfl rfl
      exact lexesKeyword word rfl depth
    | false =>
      have word : IsWord (unit 'F' :: text "alse") := wordOf rfl rfl
      exact lexesKeyword word rfl depth
  | string t => exact (lexesString t depth).weaken fun _ _ => trivial
  | number x =>
    obtain ⟨m, rfl⟩ := spelled
    obtain ⟨n, shaped, written, _⟩ := Number.numeralOfText m
    have lexes := lexesNumeral shaped depth
    rwa [written] at lexes

theorem lexesMark {t : Text} {u : CodeUnit} {k : TokenKind} (same : t = [u])
    (stands : StandsFor u k) (depth : Nat) :
    Lexes depth t (.ok [(k, t)]) (k.depthAfter depth) Anything := same ▸ lexesUnit stands depth

theorem lexesOpener (kind : SequenceKind) (depth : Nat) :
    Lexes depth kind.opener (.ok [(kind.openKind, kind.opener)]) (depth + 1) Anything := by
  cases kind with
  | list => exact lexesMark (u := unit '[') rfl (by decide) depth
  | tuple => exact lexesMark (u := unit '(') rfl (by decide) depth

theorem lexesCloser (kind : SequenceKind) (depth : Nat) :
    Lexes (depth + 1) kind.closer (.ok [(kind.closeKind, kind.closer)]) depth Anything := by
  cases kind with
  | list => exact lexesMark (u := unit ']') rfl (by decide) (depth + 1)
  | tuple => exact lexesMark (u := unit ')') rfl (by decide) (depth + 1)

theorem lexesCommaMark (depth : Nat) :
    Lexes depth (text ",") (.ok [commaLexical]) depth Anything :=
  lexesMark (u := unit ',') (k := .comma) rfl (by decide) depth

theorem lexesSpace (depth : Nat) : Lexes depth [unit ' '] (.ok []) depth Anything :=
  lexesBlank rfl depth

theorem lexesComma (depth : Nat) :
    Lexes depth comma (.ok [commaLexical]) depth Anything :=
  (lexesCommaMark depth).append (lexesSpace depth) fun _ _ => trivial

theorem lexesLastComma (kind : SequenceKind) (n depth : Nat) :
    Lexes depth (kind.lastComma n).flatten
      (.ok ((kind.lastComma n).map fun t => (.comma, t))) depth Anything := by
  unfold SequenceKind.lastComma
  split
  · exact lexesCommaMark depth
  · exact lexesNothing depth

theorem lexesOperator (op : UnaryOp) (depth : Nat) :
    Lexes depth op.written (.ok [op.lexical]) depth Anything := by
  cases op with
  | negate => exact lexesMark (t := text "-") (u := unit '-') rfl (by decide) depth
  | not =>
    have shaped : IsWord (unit 'n' :: text "ot") := wordOf rfl rfl
    exact (lexesKeyword shaped (k := .notWord) rfl depth).append (lexesSpace depth)
      fun rest _ => spaceApart rest

end Lexer

namespace Expr

theorem commaApart (t : Text) : StandsApart (comma ++ t) :=
  standsApartCons (u := unit ',') (by decide) (unit ' ' :: t)

theorem slotsApart {rest : Text} (apart : rest.StandsApart) (slots : List (Option Expr)) :
    StandsApart ((slotPieces comma slots).flatten ++ rest) := by
  cases slots with
  | nil => exact apart
  | cons slot slots =>
    cases slot <;>
      simp only [slotPieces, List.flatten_cons, List.append_assoc] <;> exact commaApart _

theorem argsApart {rest : Text} (apart : rest.StandsApart) (args : List Expr) :
    StandsApart ((argPieces [comma] args).flatten ++ rest) := by
  cases args with
  | nil => exact apart
  | cons e args =>
    simp only [argPieces, List.singleton_append, List.flatten_cons, List.append_assoc]
    exact commaApart _

theorem lastCommaApart (kind : SequenceKind) (n : Nat) (rest : Text) :
    StandsApart ((kind.lastComma n).flatten ++ kind.closer ++ rest) := by
  unfold SequenceKind.lastComma
  split
  · exact standsApartCons (u := unit ',') (by decide) _
  · exact closerApart kind rest

theorem lexesObject {object : Expr}
    (lexes : ∀ depth, Lexes depth object.pieces.flatten object.lexicals depth StandsApart)
    {depth : Nat} :
    Lexes depth (if object.isUnary then text "(" :: (object.pieces ++ [text ")"])
        else object.pieces).flatten
      (if object.isUnary then joined (.ok [(.openParen, text "(")])
        (joined object.lexicals (.ok [(.closeParen, text ")")])) else object.lexicals)
      depth StandsApart := by
  split
  · simp only [List.flatten_cons, List.flatten_append, List.flatten_nil, List.append_nil]
    have whole := (lexesOpener .tuple depth).append ((lexes (depth + 1)).append
      (lexesCloser .tuple depth) fun rest _ => closerApart .tuple rest) fun _ _ => trivial
    exact whole.weaken fun _ _ => trivial
  · exact lexes depth

mutual

theorem lexesExpr {e : Expr} (spelled : e.Spellable) (depth : Nat) :
    Lexes depth e.pieces.flatten e.lexicals depth StandsApart := by
  match e with
  | literal value span =>
    simpa only [pieces, lexicals, List.flatten_singleton] using lexesScalar spelled depth
  | sequence kind elements span =>
    simp only [pieces, lexicals, List.flatten_cons, List.flatten_append, List.flatten_nil,
      List.append_nil]
    have inner := lexesSlots spelled.2 (lexesNothing (depth + 1))
    have last := (lexesLastComma kind elements.length (depth + 1)).append (lexesCloser kind depth)
      fun _ _ => trivial
    have whole := (lexesOpener kind depth).append
      (inner.append last fun rest _ => lastCommaApart kind _ rest) fun _ _ => trivial
    exact whole.weaken fun _ _ => trivial
  | name n span =>
    simpa only [pieces, lexicals, List.flatten_singleton] using
      lexesKeyword spelled.1 spelled.2 depth
  | call callee args span =>
    simp only [pieces, lexicals, List.flatten_cons, List.flatten_append, List.flatten_nil,
      List.append_nil]
    have word := lexesKeyword spelled.1.1 spelled.1.2 depth
    have head := word.append (lexesOpener .tuple depth) fun rest _ => openerApart .tuple rest
    have inner := lexesArgs spelled.2 [] (lexesNothing (depth + 1))
    have whole := head.append (inner.append (lexesCloser .tuple depth) fun rest _ =>
      closerApart .tuple rest) fun _ _ => trivial
    exact whole.weaken fun _ _ => trivial
  | subscript object index span =>
    simp only [pieces, lexicals, List.flatten_cons, List.flatten_append, List.flatten_nil,
      List.append_nil]
    have inner := (lexesOpener .list depth).append ((lexesExpr spelled.2.2 (depth + 1)).append
      (lexesCloser .list depth) fun rest _ => closerApart .list rest) fun _ _ => trivial
    have whole := (lexesObject (lexesExpr spelled.2.1)).append inner fun rest _ =>
      openerApart .list _
    exact whole.weaken fun _ _ => trivial
  | unary op operand span =>
    simp only [pieces, lexicals, List.flatten_cons]
    exact (lexesOperator op depth).append (lexesExpr spelled.2 depth) fun _ _ => trivial

theorem lexesSlots {slots : List (Option Expr)} (spelled : AllSlots Spelled True slots)
    {depth : Nat} {separator : Text} {lead : List Lexical}
    (before : Lexes depth separator (.ok lead) depth Anything) :
    Lexes depth (slotPieces separator slots).flatten (slotLexicals lead slots) depth
      StandsApart := by
  match slots with
  | [] => exact (lexesNothing depth).weaken fun _ _ => trivial
  | none :: rest =>
    simp only [slotPieces, slotLexicals, List.flatten_cons]
    have hole := lexesNowhere (u := unit '<') (by decide) rfl rfl rfl
      depth depth (text "missing>" ++ (slotPieces comma rest).flatten)
    exact (before.append hole fun _ _ => trivial).weaken fun _ _ => trivial
  | some e :: rest =>
    simp only [slotPieces, slotLexicals, List.flatten_cons, List.flatten_append]
    exact before.append ((lexesExpr spelled.1 depth).append (lexesSlots spelled.2 (lexesComma depth))
      fun _ apart => slotsApart apart rest) fun _ _ => trivial

theorem lexesArgs {args : List Expr} (spelled : AllArgs Spelled True args)
    {depth : Nat} (separator : List Text) {lead : List Lexical}
    (before : Lexes depth separator.flatten (.ok lead) depth Anything) :
    Lexes depth (argPieces separator args).flatten (argLexicals lead args) depth
      StandsApart := by
  match args with
  | [] => exact (lexesNothing depth).weaken fun _ _ => trivial
  | e :: rest =>
    simp only [argPieces, argLexicals, List.flatten_append]
    have next : Lexes depth [comma].flatten (.ok [commaLexical]) depth Anything := by
      simpa using lexesComma depth
    exact before.append ((lexesExpr spelled.1 depth).append (lexesArgs spelled.2 [comma] next)
      fun _ apart => argsApart apart rest) fun _ _ => trivial

end

end Expr

end SeqScript
