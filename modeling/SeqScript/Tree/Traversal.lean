import SeqScript.Tree.Basic

/-!
Two traversals of a tree. `walk` calls one function before and one after the children of a node.
A visitor has a function for each kind of node, of which a node calls its own: how far to go down is
left to the visitor, and `lister` lists nodes with their depths. Both take children in source order
and skip empty slots.
-/
namespace SeqScript

structure NodeVisitor (ρ : Type) where
  script (statements : List Statement) (span : Span) : ρ
  expressionStatement (e : Expr) (span : Span) : ρ
  assignment (target : Text) (value : Expr) (span : Span) : ρ
  sequenceLiteral (kind : SequenceKind) (elements : List (Option Expr)) (span : Span) : ρ
  numberLiteral (x : Number) (span : Span) : ρ
  stringLiteral (t : Text) (span : Span) : ρ
  boolLiteral (b : Bool) (span : Span) : ρ
  noneLiteral (span : Span) : ρ
  identifier (name : Text) (span : Span) : ρ
  call (callee : Text) (args : List Expr) (span : Span) : ρ
  subscript (object index : Expr) (span : Span) : ρ
  unary (op : UnaryOp) (operand : Expr) (span : Span) : ρ

def Node.accept {ρ : Type} (v : NodeVisitor ρ) : Node → ρ
  | .script ⟨statements, span⟩ => v.script statements span
  | .statement (.expression e span) => v.expressionStatement e span
  | .statement (.assignment target value span) => v.assignment target value span
  | .expression (.literal (.number x) span) => v.numberLiteral x span
  | .expression (.literal (.string t) span) => v.stringLiteral t span
  | .expression (.literal (.bool b) span) => v.boolLiteral b span
  | .expression (.literal .none span) => v.noneLiteral span
  | .expression (.sequence kind elements span) => v.sequenceLiteral kind elements span
  | .expression (.name n span) => v.identifier n span
  | .expression (.call callee args span) => v.call callee args span
  | .expression (.subscript object index span) => v.subscript object index span
  | .expression (.unary op operand span) => v.unary op operand span

section

variable {α : Type} (enter exit : Node → α → α)

namespace Expr

mutual

def walk : Expr → α → α
  | e@(literal _ _), a => exit (.expression e) (enter (.expression e) a)
  | e@(sequence _ elements _), a =>
    exit (.expression e) (walkSlots elements (enter (.expression e) a))
  | e@(name _ _), a => exit (.expression e) (enter (.expression e) a)
  | e@(call _ args _), a => exit (.expression e) (walkAll args (enter (.expression e) a))
  | e@(subscript object index _), a =>
    exit (.expression e) (walk index (walk object (enter (.expression e) a)))
  | e@(unary _ operand _), a => exit (.expression e) (walk operand (enter (.expression e) a))

def walkSlots : List (Option Expr) → α → α
  | [], a => a
  | none :: rest, a => walkSlots rest a
  | some e :: rest, a => walkSlots rest (walk e a)

def walkAll : List Expr → α → α
  | [], a => a
  | e :: rest, a => walkAll rest (walk e a)

end

end Expr

def Statement.walk (s : Statement) (a : α) : α :=
  match s with
  | .expression e _ => exit (.statement s) (e.walk enter exit (enter (.statement s) a))
  | .assignment _ value _ => exit (.statement s) (value.walk enter exit (enter (.statement s) a))

def Node.walk (n : Node) (a : α) : α :=
  match n with
  | .script s =>
    exit n (s.statements.foldl (fun a s => s.walk enter exit a) (enter n a))
  | .statement s => s.walk enter exit a
  | .expression e => e.walk enter exit a

end

namespace Expr

mutual

def preorder (depth : Nat) : Expr → List (Node × Nat)
  | e@(literal _ _) => [(.expression e, depth)]
  | e@(sequence _ elements _) => (.expression e, depth) :: preorderSlots (depth + 1) elements
  | e@(name _ _) => [(.expression e, depth)]
  | e@(call _ args _) => (.expression e, depth) :: preorderAll (depth + 1) args
  | e@(subscript object index _) =>
    (.expression e, depth) :: (preorder (depth + 1) object ++ preorder (depth + 1) index)
  | e@(unary _ operand _) => (.expression e, depth) :: preorder (depth + 1) operand

def preorderSlots (depth : Nat) : List (Option Expr) → List (Node × Nat)
  | [] => []
  | none :: rest => preorderSlots depth rest
  | some e :: rest => preorder depth e ++ preorderSlots depth rest

def preorderAll (depth : Nat) : List Expr → List (Node × Nat)
  | [] => []
  | e :: rest => preorder depth e ++ preorderAll depth rest

end

end Expr

def Statement.preorder (depth : Nat) (s : Statement) : List (Node × Nat) :=
  match s with
  | .expression e _ => (.statement s, depth) :: e.preorder (depth + 1)
  | .assignment _ value _ => (.statement s, depth) :: value.preorder (depth + 1)

def Node.preorder (n : Node) : List (Node × Nat) :=
  match n with
  | .script s => (n, 0) :: s.statements.flatMap (Statement.preorder 1)
  | .statement s => s.preorder 0
  | .expression e => e.preorder 0

def NodeVisitor.lister (depth : Nat) : NodeVisitor (List (Node × Nat)) where
  script statements span :=
    (.script ⟨statements, span⟩, depth) :: statements.flatMap (Statement.preorder (depth + 1))
  expressionStatement e span :=
    (.statement (.expression e span), depth) :: e.preorder (depth + 1)
  assignment target value span :=
    (.statement (.assignment target value span), depth) :: value.preorder (depth + 1)
  sequenceLiteral kind elements span :=
    (.expression (.sequence kind elements span), depth) :: Expr.preorderSlots (depth + 1) elements
  numberLiteral x span := [(.expression (.literal (.number x) span), depth)]
  stringLiteral t span := [(.expression (.literal (.string t) span), depth)]
  boolLiteral b span := [(.expression (.literal (.bool b) span), depth)]
  noneLiteral span := [(.expression (.literal .none span), depth)]
  identifier name span := [(.expression (.name name span), depth)]
  call callee args span :=
    (.expression (.call callee args span), depth) :: Expr.preorderAll (depth + 1) args
  subscript object index span :=
    (.expression (.subscript object index span), depth) ::
      (object.preorder (depth + 1) ++ index.preorder (depth + 1))
  unary op operand span :=
    (.expression (.unary op operand span), depth) :: operand.preorder (depth + 1)

end SeqScript
