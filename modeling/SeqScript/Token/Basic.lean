import SeqScript.Location

/-!
Tokens: what a source text consists of between blanks, comments and continued lines. A newline
outside brackets is a token of its own, and the last token of every text is its end.
-/
namespace SeqScript

inductive TokenKind where
  | string | number | trueWord | falseWord | noneWord
  | identifier
  | comma | assign | minus | notWord
  | openParen | closeParen | openBracket | closeBracket
  | newline | endOfInput
  deriving DecidableEq, Repr, Inhabited

namespace TokenKind

def name : TokenKind → Text
  | .string => text "STRING"
  | .number => text "NUMBER"
  | .trueWord => text "TRUE"
  | .falseWord => text "FALSE"
  | .noneWord => text "NONE"
  | .identifier => text "IDENTIFIER"
  | .comma => text "COMMA"
  | .assign => text "ASSIGN"
  | .minus => text "MINUS"
  | .notWord => text "NOT"
  | .openParen => text "LPAREN"
  | .closeParen => text "RPAREN"
  | .openBracket => text "LBRACKET"
  | .closeBracket => text "RBRACKET"
  | .newline => text "NEWLINE"
  | .endOfInput => text "EOF"

def ofWord (word : Text) : TokenKind :=
  if word = text "True" then .trueWord
  else if word = text "False" then .falseWord
  else if word = text "None" then .noneWord
  else if word = text "not" then .notWord
  else .identifier

def ofUnit (u : CodeUnit) : Option TokenKind :=
  if u = unit ',' then some .comma
  else if u = unit '=' then some .assign
  else if u = unit '-' then some .minus
  else if u = unit '(' then some .openParen
  else if u = unit ')' then some .closeParen
  else if u = unit '[' then some .openBracket
  else if u = unit ']' then some .closeBracket
  else none

def depthAfter (depth : Nat) : TokenKind → Nat
  | .openParen | .openBracket => depth + 1
  | .closeParen | .closeBracket => depth - 1
  | _ => depth

end TokenKind

structure Token where
  kind : TokenKind
  value : Text
  span : Span
  deriving DecidableEq, Repr, Inhabited

end SeqScript
