import SeqScript.Tree.Summary

/-! What a tree is written as does not depend on its places, in full and in short. -/
namespace SeqScript.Expr

@[simp] theorem lengthBareSlots (elements : List (Option Expr)) :
    (bareSlots elements).length = elements.length := by rw [bareSlotsEqMap, List.length_map]

@[simp] theorem isUnaryBare (e : Expr) : e.bare.isUnary = e.isUnary := by cases e <;> rfl

mutual

theorem piecesBare (e : Expr) : e.bare.pieces = e.pieces := by
  match e with
  | .literal _ _ | .name _ _ => rfl
  | .sequence kind elements span =>
    simp only [bare, pieces, slotPiecesBare, lengthBareSlots]
  | .call callee args span => simp only [bare, pieces, argPiecesBare]
  | .subscript object index span => simp only [bare, pieces, isUnaryBare, piecesBare]
  | .unary op operand span => simp only [bare, pieces, piecesBare]

theorem slotPiecesBare (separator : Text) (elements : List (Option Expr)) :
    slotPieces separator (bareSlots elements) = slotPieces separator elements := by
  match elements with
  | [] => rfl
  | none :: rest => simp only [bareSlots, slotPieces, slotPiecesBare]
  | some e :: rest => simp only [bareSlots, slotPieces, piecesBare, slotPiecesBare]

theorem argPiecesBare (separator : List Text) (args : List Expr) :
    argPieces separator (bareAll args) = argPieces separator args := by
  match args with
  | [] => rfl
  | e :: rest => simp only [bareAll, argPieces, piecesBare, argPiecesBare]

end

theorem printedBare (e : Expr) : e.bare.printed = e.printed := congrArg List.flatten (piecesBare e)

mutual

theorem summaryBare (limits : Limits) (e : Expr) : e.bare.summary limits = e.summary limits := by
  match e with
  | .sequence kind elements span => simp only [bare, summary, slotSummariesBare]
  | .literal value span => exact printedBare (.literal value span)
  | .name n span => exact printedBare (.name n span)
  | .call callee args span => exact printedBare (.call callee args span)
  | .subscript object index span => exact printedBare (.subscript object index span)
  | .unary op operand span => exact printedBare (.unary op operand span)

theorem slotSummariesBare (limits : Limits) (elements : List (Option Expr)) :
    slotSummaries limits (bareSlots elements) = slotSummaries limits elements := by
  match elements with
  | [] => rfl
  | none :: rest => simp only [bareSlots, slotSummaries, slotSummariesBare]
  | some e :: rest => simp only [bareSlots, slotSummaries, summaryBare, slotSummariesBare]

end

end SeqScript.Expr
