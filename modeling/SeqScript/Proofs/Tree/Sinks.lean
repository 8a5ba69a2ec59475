import SeqScript.Tree.Sink

/-! Printing to sinks. Whatever a sink does, printing a tree appends the pieces of the tree one by one
and does nothing else; so a sink that refuses the pieces behind a number of them has the first ones,
and its refusal is what printing ends with. -/
namespace SeqScript

namespace Expr

variable {m : Type → Type} [Monad m] [LawfulMonad m] (append : Text → m Unit)

mutual

theorem printToAppends (e : Expr) : e.printTo append = e.pieces.forM append := by
  match e with
  | .literal value _ => simp [printTo, pieces]
  | .sequence kind elements _ =>
    simp [printTo, pieces, printSlotsAppends [] elements]
  | .name n _ => simp [printTo, pieces]
  | .call callee args _ =>
    simp [printTo, pieces, printArgsAppends [] args]
  | .subscript object index _ =>
    simp only [printTo, pieces, printToAppends object, printToAppends index]
    split <;> simp
  | .unary op operand _ =>
    simp [printTo, pieces, printToAppends operand]

theorem printSlotsAppends (separator : Text) (elements : List (Option Expr)) :
    printSlots append separator elements = (slotPieces separator elements).forM append := by
  match elements with
  | [] => simp [printSlots, slotPieces]
  | none :: rest => simp [printSlots, slotPieces, printSlotsAppends comma rest]
  | some e :: rest =>
    simp [printSlots, slotPieces, printToAppends e, printSlotsAppends comma rest]

theorem printArgsAppends (separator : List Text) (es : List Expr) :
    printArgs append separator es = (argPieces separator es).forM append := by
  match es with
  | [] => simp [printArgs, argPieces]
  | e :: rest =>
    simp [printArgs, argPieces, printToAppends e, printArgsAppends [comma] rest]

end

end Expr

section

variable {m : Type → Type} [Monad m] [LawfulMonad m] (append : Text → m Unit)

theorem Statement.printToAppends (s : Statement) : s.printTo append = s.pieces.forM append := by
  cases s with
  | expression e _ => exact e.printToAppends append
  | assignment target value _ => simp [printTo, pieces, value.printToAppends append]

theorem Script.printStatementsAppends (separator : List Text) (ss : List Statement) :
    printStatements append separator ss = (statementPieces separator ss).forM append := by
  induction ss generalizing separator with
  | nil => simp [printStatements, statementPieces]
  | cons s rest ih => simp [printStatements, statementPieces, s.printToAppends append, ih]

theorem Node.printToAppends (n : Node) : n.printTo append = n.pieces.forM append := by
  cases n with
  | script s => exact Script.printStatementsAppends append [] s.statements
  | statement s => exact s.printToAppends append
  | expression e => exact e.printToAppends append

end

namespace Sink

variable {ε : Type}

theorem collectAll (pieces held : List Text) :
    (pieces.forM collect).run held = ((), held ++ pieces) := by
  induction pieces generalizing held with
  | nil => rw [List.append_nil]; rfl
  | cons p rest ih =>
    have next : ((p :: rest).forM collect).run held = (rest.forM collect).run (held ++ [p]) := rfl
    rw [next, ih, List.append_assoc, List.singleton_append]

theorem boundedAll (limit : Nat) (full : ε) (pieces held : List Text) :
    ((pieces.forM (bounded limit full)).run).run held =
      (if pieces.length ≤ limit - held.length then .ok () else .error full,
        held ++ pieces.take (limit - held.length)) := by
  induction pieces generalizing held with
  | nil => simp only [List.length_nil, Nat.zero_le, if_true, List.take_nil, List.append_nil]; rfl
  | cons p rest ih =>
    have piece : ((bounded limit full p).run).run held =
        if held.length < limit then (.ok (), held ++ [p]) else (.error full, held) := by
      have asks : ((bounded limit full p).run).run held =
          ((if held.length < limit then liftM (collect p) else throw full :
            Collecting ε Unit).run).run held := rfl
      rw [asks]
      split <;> rfl
    by_cases room : held.length < limit
    · rw [if_pos room] at piece
      have next : (((p :: rest).forM (bounded limit full)).run).run held =
          ((rest.forM (bounded limit full)).run).run (held ++ [p]) := by
        simp only [List.forM_eq_forM, List.forM_cons, ExceptT.run_bind, StateT.run_bind, piece]
        rfl
      have left : limit - held.length = (limit - (held ++ [p]).length) + 1 := by
        rw [List.length_append, List.length_singleton]
        omega
      rw [next, ih, left, List.take_succ_cons, List.append_assoc, List.singleton_append]
      simp
    · rw [if_neg room] at piece
      have stops : (((p :: rest).forM (bounded limit full)).run).run held = (.error full, held) := by
        simp only [List.forM_eq_forM, List.forM_cons, ExceptT.run_bind, StateT.run_bind, piece]
        rfl
      have full : limit - held.length = 0 := by omega
      rw [stops, full]
      simp

end Sink

namespace Node

theorem collectedPieces (n : Node) : n.collected = n.pieces := by
  rw [collected, n.printToAppends, Sink.collectAll]
  rfl

/- A sink that has room for some pieces only is left with the first of those that a collecting sink
is given, and what it refuses the next one with ends the printing. -/
theorem boundedPrefix {ε : Type} (n : Node) (limit : Nat) (full : ε) :
    n.bounded limit full =
        (if n.collected.length ≤ limit then .ok () else .error full, n.collected.take limit) ∧
      n.collected.flatten = n.printed := by
  rw [bounded, n.printToAppends, Sink.boundedAll, collectedPieces]
  exact ⟨rfl, rfl⟩

end Node

end SeqScript
