import SeqScript.Fault.Cause

/-!
Trees of scripts. Every node carries the span it was read from, or the synthetic one. An element
slot of a sequence may be empty; no text reads as such a tree, but a host can build one.
-/
namespace SeqScript

inductive UnaryOp where
  | negate | not
  deriving DecidableEq, Repr, Inhabited

def UnaryOp.symbol : UnaryOp → Text
  | .negate => text "-"
  | .not => text "not"

inductive Expr where
  | literal (value : Scalar) (span : Span)
  | sequence (kind : SequenceKind) (elements : List (Option Expr)) (span : Span)
  | name (name : Text) (span : Span)
  | call (callee : Text) (args : List Expr) (span : Span)
  | subscript (object index : Expr) (span : Span)
  | unary (op : UnaryOp) (operand : Expr) (span : Span)
  deriving Repr, Inhabited

inductive Statement where
  | expression (e : Expr) (span : Span)
  | assignment (target : Text) (value : Expr) (span : Span)
  deriving Repr, Inhabited

structure Script where
  statements : List Statement
  span : Span
  deriving Repr, Inhabited

inductive Node where
  | script (s : Script)
  | statement (s : Statement)
  | expression (e : Expr)
  deriving Repr, Inhabited

namespace Expr

def span : Expr → Span
  | literal _ s | sequence _ _ s | name _ s | call _ _ s | subscript _ _ s | unary _ _ s => s

def withSpan (s : Span) : Expr → Expr
  | literal value _ => literal value s
  | sequence kind elements _ => sequence kind elements s
  | name n _ => name n s
  | call callee args _ => call callee args s
  | subscript object index _ => subscript object index s
  | unary op operand _ => unary op operand s

def isUnary : Expr → Bool
  | unary _ _ _ => true
  | _ => false

def typeName : Expr → Text
  | literal (.number _) _ => text "NumberLiteral"
  | literal (.string _) _ => text "StringLiteral"
  | literal (.bool _) _ => text "BoolLiteral"
  | literal .none _ => text "NoneLiteral"
  | sequence _ _ _ => text "SequenceLiteral"
  | name _ _ => text "Identifier"
  | call _ _ _ => text "Call"
  | subscript _ _ _ => text "Subscript"
  | unary _ _ _ => text "Unary"

mutual

def bare : Expr → Expr
  | literal value _ => literal value .synthetic
  | sequence kind elements _ => sequence kind (bareSlots elements) .synthetic
  | name n _ => name n .synthetic
  | call callee args _ => call callee (bareAll args) .synthetic
  | subscript object index _ => subscript object.bare index.bare .synthetic
  | unary op operand _ => unary op operand.bare .synthetic

def bareSlots : List (Option Expr) → List (Option Expr)
  | [] => []
  | none :: rest => none :: bareSlots rest
  | some e :: rest => some e.bare :: bareSlots rest

def bareAll : List Expr → List Expr
  | [] => []
  | e :: rest => e.bare :: bareAll rest

end

theorem bareAllEqMap (es : List Expr) : bareAll es = es.map bare := by
  induction es with
  | nil => simp [bareAll]
  | cons e rest ih => simp [bareAll, ih]

theorem bareSlotsEqMap (slots : List (Option Expr)) :
    bareSlots slots = slots.map (Option.map bare) := by
  induction slots with
  | nil => simp [bareSlots]
  | cons slot rest ih => cases slot <;> simp [bareSlots, ih]

end Expr

namespace Statement

def span : Statement → Span
  | expression _ s | assignment _ _ s => s

def typeName : Statement → Text
  | expression _ _ => text "ExpressionStatement"
  | assignment _ _ _ => text "Assignment"

def bare : Statement → Statement
  | expression e _ => expression e.bare .synthetic
  | assignment target value _ => assignment target value.bare .synthetic

end Statement

def Script.bare (s : Script) : Script := ⟨s.statements.map Statement.bare, .synthetic⟩

namespace Node

def span : Node → Span
  | script s => s.span
  | statement s => s.span
  | expression e => e.span

def typeName : Node → Text
  | script _ => text "Script"
  | statement s => s.typeName
  | expression e => e.typeName

end Node

end SeqScript
