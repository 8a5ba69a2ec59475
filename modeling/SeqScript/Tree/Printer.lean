import SeqScript.Tree.Basic

/-!
The written form of trees. `pieces` lists the pieces of text in the order in which they are
written; `printTo` hands them to a sink one by one. The sink may be any effect, so a sink that
fails stops the printing where it fails.

Only a unary operand of a subscript needs parentheses, and only a tuple of one element needs a
comma behind it.
-/
namespace SeqScript

def missingElement : Text := text "<missing>"

def SequenceKind.lastComma (kind : SequenceKind) (length : Nat) : List Text :=
  if kind = .tuple ∧ length = 1 then [text ","] else []

def UnaryOp.written : UnaryOp → Text
  | .negate => text "-"
  | .not => text "not "

def comma : Text := text ", "

namespace Expr

mutual

def pieces : Expr → List Text
  | literal value _ => [value.written]
  | sequence kind elements _ =>
    kind.opener :: (slotPieces [] elements ++
      (kind.lastComma elements.length ++ [kind.closer]))
  | name n _ => [n]
  | call callee args _ => (callee ++ text "(") :: (argPieces [] args ++ [text ")"])
  | subscript object index _ =>
    let inner := object.pieces
    (if object.isUnary then text "(" :: (inner ++ [text ")"]) else inner) ++
      (text "[" :: (index.pieces ++ [text "]"]))
  | unary op operand _ => op.written :: operand.pieces

def slotPieces (separator : Text) : List (Option Expr) → List Text
  | [] => []
  | none :: rest => separator :: missingElement :: slotPieces comma rest
  | some e :: rest => separator :: (e.pieces ++ slotPieces comma rest)

/- Arguments have a separator between them; before the first there is no piece at all. -/
def argPieces (separator : List Text) : List Expr → List Text
  | [] => []
  | e :: rest => separator ++ (e.pieces ++ argPieces [comma] rest)

end

section

variable {m : Type → Type} [Monad m] (append : Text → m Unit)

mutual

def printTo : Expr → m Unit
  | literal value _ => append value.written
  | sequence kind elements _ => do
    append kind.opener
    printSlots [] elements
    (kind.lastComma elements.length).forM append
    append kind.closer
  | name n _ => append n
  | call callee args _ => do
    append (callee ++ text "(")
    printArgs [] args
    append (text ")")
  | subscript object index _ => do
    if object.isUnary then
      append (text "(")
      object.printTo
      append (text ")")
    else object.printTo
    append (text "[")
    index.printTo
    append (text "]")
  | unary op operand _ => do
    append op.written
    operand.printTo

def printSlots (separator : Text) : List (Option Expr) → m Unit
  | [] => pure ()
  | none :: rest => do
    append separator
    append missingElement
    printSlots comma rest
  | some e :: rest => do
    append separator
    e.printTo
    printSlots comma rest

def printArgs (separator : List Text) : List Expr → m Unit
  | [] => pure ()
  | e :: rest => do
    separator.forM append
    e.printTo
    printArgs [comma] rest

end

end

def printed (e : Expr) : Text := e.pieces.flatten

end Expr

namespace Statement

def pieces : Statement → List Text
  | expression e _ => e.pieces
  | assignment target value _ => (target ++ text " = ") :: value.pieces

def printTo {m : Type → Type} [Monad m] (append : Text → m Unit) : Statement → m Unit
  | expression e _ => e.printTo append
  | assignment target value _ => do
    append (target ++ text " = ")
    value.printTo append

end Statement

namespace Script

def statementPieces (separator : List Text) : List Statement → List Text
  | [] => []
  | s :: rest => separator ++ (s.pieces ++ statementPieces [[CodeUnit.newline]] rest)

def printStatements {m : Type → Type} [Monad m] (append : Text → m Unit) (separator : List Text) :
    List Statement → m Unit
  | [] => pure ()
  | s :: rest => do
    separator.forM append
    s.printTo append
    printStatements append [[CodeUnit.newline]] rest

end Script

namespace Node

def pieces : Node → List Text
  | script s => Script.statementPieces [] s.statements
  | statement s => s.pieces
  | expression e => e.pieces

def printTo {m : Type → Type} [Monad m] (append : Text → m Unit) : Node → m Unit
  | script s => Script.printStatements append [] s.statements
  | statement s => s.printTo append
  | expression e => e.printTo append

def printed (n : Node) : Text := n.pieces.flatten

end Node

end SeqScript
