import SeqScript.Tree.Basic

/-! A property of every expression in a tree. The property is one of a node's own data; the second
argument says whether an element slot may be empty. -/
namespace SeqScript
namespace Expr

section
variable (node : Expr → Prop) (hole : Prop)

mutual

def All : Expr → Prop
  | e@(literal _ _) => node e
  | e@(sequence _ elements _) => node e ∧ AllSlots elements
  | e@(name _ _) => node e
  | e@(call _ args _) => node e ∧ AllArgs args
  | e@(subscript object index _) => node e ∧ object.All ∧ index.All
  | e@(unary _ operand _) => node e ∧ operand.All

def AllSlots : List (Option Expr) → Prop
  | [] => True
  | none :: rest => hole ∧ AllSlots rest
  | some e :: rest => e.All ∧ AllSlots rest

def AllArgs : List Expr → Prop
  | [] => True
  | e :: rest => e.All ∧ AllArgs rest

end

end

variable {node : Expr → Prop} {hole : Prop}

theorem allArgsIff {es : List Expr} : AllArgs node hole es ↔ ∀ e ∈ es, All node hole e := by
  induction es with
  | nil => simp [AllArgs]
  | cons e rest ih => simp [AllArgs, ih]

theorem allSlotsOfElements {es : List Expr} (all : ∀ e ∈ es, All node hole e) :
    AllSlots node hole (es.map some) := by
  induction es with
  | nil => trivial
  | cons e rest ih =>
    exact ⟨all e List.mem_cons_self, ih fun x member => all x (List.mem_cons_of_mem e member)⟩

theorem All.root {e : Expr} (all : e.All node hole) : node e := by
  cases e with
  | literal => exact all
  | name => exact all
  | sequence => exact all.1
  | call => exact all.1
  | subscript => exact all.1
  | unary => exact all.1

mutual

theorem All.weaken {node' : Expr → Prop} {hole' : Prop} (weaker : ∀ d, node d → node' d)
    (empty : hole → hole') {e : Expr} (all : e.All node hole) : e.All node' hole' := by
  match e with
  | literal _ _ => exact weaker _ all
  | sequence _ elements _ => exact ⟨weaker _ all.1, AllSlots.weaken weaker empty all.2⟩
  | name _ _ => exact weaker _ all
  | call _ args _ => exact ⟨weaker _ all.1, AllArgs.weaken weaker empty all.2⟩
  | subscript object index _ =>
    exact ⟨weaker _ all.1, All.weaken weaker empty all.2.1, All.weaken weaker empty all.2.2⟩
  | unary _ operand _ => exact ⟨weaker _ all.1, All.weaken weaker empty all.2⟩

theorem AllSlots.weaken {node' : Expr → Prop} {hole' : Prop} (weaker : ∀ d, node d → node' d)
    (empty : hole → hole') {slots : List (Option Expr)} (all : AllSlots node hole slots) :
    AllSlots node' hole' slots := by
  match slots with
  | [] => trivial
  | none :: rest => exact ⟨empty all.1, AllSlots.weaken weaker empty all.2⟩
  | some e :: rest => exact ⟨All.weaken weaker empty all.1, AllSlots.weaken weaker empty all.2⟩

theorem AllArgs.weaken {node' : Expr → Prop} {hole' : Prop} (weaker : ∀ d, node d → node' d)
    (empty : hole → hole') {args : List Expr} (all : AllArgs node hole args) :
    AllArgs node' hole' args := by
  match args with
  | [] => trivial
  | e :: rest => exact ⟨All.weaken weaker empty all.1, AllArgs.weaken weaker empty all.2⟩

end

theorem AllSlots.noHole {slots : List (Option Expr)} (all : AllSlots node False slots) (i : Nat) :
    slots[i]? ≠ some none := by
  induction slots generalizing i with
  | nil => simp
  | cons slot rest ih =>
    cases slot with
    | none => exact all.1.elim
    | some e =>
      cases i with
      | zero => simp
      | succ i => simpa using ih all.2 i

def Full (e : Expr) : Prop := e.All (fun _ => True) False

end Expr

namespace Statement

def expr : Statement → Expr
  | expression e _ => e
  | assignment _ e _ => e

def Full (s : Statement) : Prop := s.expr.Full

end Statement

def Script.Full (s : Script) : Prop := ∀ t ∈ s.statements, t.Full

end SeqScript
