import SeqScript.Tree.Summary
import SeqScript.Value.Written

/-! What stands between the brackets of a sequence. Printing writes a separator before each element,
a short form and a written value join their items, and all three make one text of the same items. So a
sequence literal of which the limits cut nothing is abbreviated to what it is printed as. -/
namespace SeqScript
namespace Expr

def slotText : Option Expr → Text
  | none => missingElement
  | some e => e.printed

theorem slotsJoined (elements : List (Option Expr)) :
    (slotPieces [] elements).flatten = Text.join comma (elements.map slotText) := by
  have behind (rest : List (Option Expr)) (t : Text) :
      t ++ (slotPieces comma rest).flatten = Text.join comma (t :: rest.map slotText) := by
    induction rest generalizing t with
    | nil => simp [slotPieces, Text.join]
    | cons slot rest ih =>
      have next := ih (slotText slot)
      simp only [Text.join, List.map_cons, List.intercalate_cons_cons] at next ⊢
      rw [← next]
      cases slot <;> simp [slotPieces, slotText, printed]
  cases elements with
  | nil => rfl
  | cons slot rest =>
    rw [List.map_cons, ← behind rest]
    cases slot <;> simp [slotPieces, slotText, printed]

theorem sequencePrinted (kind : SequenceKind) (elements : List (Option Expr)) (span : Span) :
    (sequence kind elements span).printed = Summary.listing kind (elements.map slotText) := by
  have inner := slotsJoined elements
  simp only [printed, pieces, Summary.listing, List.flatten_cons, List.flatten_append, inner,
    List.length_map, List.flatten_nil, List.append_nil, List.append_assoc]

end Expr

theorem joinLonger {separator t : Text} {items : List Text} (member : t ∈ items) :
    t.length ≤ (Text.join separator items).length := by
  induction items with
  | nil => cases member
  | cons first rest ih =>
    cases rest with
    | nil => simp [List.mem_singleton.mp member, Text.join]
    | cons second rest =>
      rw [Text.join, List.intercalate_cons_cons, List.length_append, List.length_append]
      rcases List.mem_cons.mp member with rfl | later
      · omega
      · have behind : t.length ≤ (separator.intercalate (second :: rest)).length := ih later
        omega

theorem listingLonger {kind : SequenceKind} {t : Text} {items : List Text} (member : t ∈ items) :
    t.length ≤ (Summary.listing kind items).length := by
  have inner : t.length ≤ (Text.join comma items).length := joinLonger member
  simp only [Summary.listing, List.length_append]
  omega

theorem listingEnclosed (kind : SequenceKind) (items : List Text) :
    Summary.listing kind items = kind.enclose items := by
  cases kind with
  | list => simp [Summary.listing, SequenceKind.enclose, SequenceKind.lastComma, comma]
  | tuple =>
    rcases items with _ | ⟨x, _ | ⟨y, rest⟩⟩
    · simp [Summary.listing, SequenceKind.enclose, SequenceKind.lastComma, comma]
    · simp [Summary.listing, SequenceKind.enclose, SequenceKind.lastComma, Text.join]
    · simp [Summary.listing, SequenceKind.enclose, SequenceKind.lastComma, comma]

namespace Expr

/-- A tree and all that stands in the element slots of its sequences, at any depth. What stands in a
call, under an operator or in a subscript is not reached. -/
inductive Slotted : Expr → Expr → Prop where
  | here (e : Expr) : Slotted e e
  | inside {kind elements span e d} (slot : some e ∈ elements) (deeper : Slotted e d) :
      Slotted (sequence kind elements span) d

def Few (most : Int) (e : Expr) : Prop :=
  ∀ kind elements span, e.Slotted (sequence kind elements span) → elements.length ≤ most

theorem Few.inside {most : Int} {e d : Expr} (few : e.Few most) (within : e.Slotted d) :
    d.Few most := by
  induction within with
  | here => exact few
  | inside slot _ ih => exact ih fun kind elements span deeper => few _ _ _ (.inside slot deeper)

theorem Slotted.shorter {e d : Expr} (within : e.Slotted d) :
    d.printed.length ≤ e.printed.length := by
  induction within with
  | here => exact Nat.le_refl _
  | @inside kind elements span e d slot deeper ih =>
    have part : slotText (some e) ∈ elements.map slotText := List.mem_map_of_mem slot
    rw [sequencePrinted]
    exact Nat.le_trans ih (listingLonger part)

variable {limits : Limits}

mutual

theorem summaryFew {e : Expr} (few : e.Few limits.maxElements)
    (short : e.printed.length ≤ limits.maxLength) : e.summary limits = e.printed := by
  match e with
  | sequence kind elements span =>
    have items : slotSummaries limits elements = elements.map slotText :=
      slotSummariesFew fun e slot =>
        have within : (sequence kind elements span).Slotted e := .inside slot (.here e)
        ⟨few.inside within, Int.le_trans (Int.ofNat_le.mpr within.shorter) short⟩
    have count : ((elements.map slotText).length : Int) ≤ limits.maxElements := by
      rw [List.length_map]
      exact few kind elements span (.here _)
    rw [sequencePrinted] at short ⊢
    rw [summary, items]
    exact if_pos ⟨count, short⟩
  | literal _ _ => rfl
  | name _ _ => rfl
  | call _ _ _ => rfl
  | subscript _ _ _ => rfl
  | unary _ _ _ => rfl

theorem slotSummariesFew {elements : List (Option Expr)}
    (parts : ∀ e, some e ∈ elements →
      e.Few limits.maxElements ∧ e.printed.length ≤ limits.maxLength) :
    slotSummaries limits elements = elements.map slotText := by
  match elements with
  | [] => rfl
  | none :: rest =>
    have others := slotSummariesFew fun e slot => parts e (List.mem_cons_of_mem none slot)
    rw [slotSummaries, others, List.map_cons, slotText]
  | some e :: rest =>
    have others := slotSummariesFew fun d slot => parts d (List.mem_cons_of_mem (some e) slot)
    obtain ⟨few, short⟩ := parts e List.mem_cons_self
    rw [slotSummaries, summaryFew few short, others, List.map_cons, slotText]

end

/- Where neither limit cuts anything, a sequence literal is abbreviated to what it is printed as, and
so is all that stands in its slots. The limit of elements is one for the literals in these slots, that
of length one for the whole text alone. -/
theorem summaryUncut (kind : SequenceKind) (elements : List (Option Expr)) (span : Span)
    (limits : Limits)
    (few : ∀ kind' elements' span',
      (sequence kind elements span).Slotted (sequence kind' elements' span') →
        elements'.length ≤ limits.maxElements)
    (short : (sequence kind elements span).printed.length ≤ limits.maxLength) :
    (sequence kind elements span).summary limits = (sequence kind elements span).printed ∧
      ∀ d, (sequence kind elements span).Slotted d → d.summary limits = d.printed := by
  have uncut (d : Expr) (within : (sequence kind elements span).Slotted d) :
      d.summary limits = d.printed := by
    have whole : (sequence kind elements span).Few limits.maxElements := few
    exact summaryFew (whole.inside within) (Int.le_trans (Int.ofNat_le.mpr within.shorter) short)
  exact ⟨uncut _ (.here _), uncut⟩

def slotsOfThree : List (Option Expr) :=
  let none : Expr := .literal .none .synthetic
  let four : Expr := .sequence .list [some none, some none, some none, some none] .synthetic
  [some (.sequence .tuple [some none] .synthetic), Option.none,
    some (.call (text "f") [four] .synthetic)]

theorem threeUncut :
    let e : Expr := .sequence .list slotsOfThree .synthetic
    let limits : Limits := ⟨3, 49⟩
    (∀ kind elements span, e.Slotted (.sequence kind elements span) → elements.length ≤ limits.maxElements) ∧
      e.printed.length ≤ limits.maxLength ∧ e.summary limits = e.printed := by
  intro e limits
  have few : ∀ kind elements span, (Expr.sequence .list slotsOfThree .synthetic).Slotted
      (.sequence kind elements span) → elements.length ≤ limits.maxElements := by
    rintro kind elements span (_ | ⟨slot, deeper⟩)
    · decide
    · simp only [slotsOfThree, List.mem_cons, Option.some.injEq, reduceCtorEq, List.not_mem_nil,
        false_or, or_false] at slot
      rcases slot with rfl | rfl
      · rcases deeper with _ | ⟨slot, deeper⟩
        · decide
        · cases List.mem_singleton.mp slot
          cases deeper
      · cases deeper
  have short : e.printed.length ≤ limits.maxLength := by decide
  exact ⟨few, short, (summaryUncut .list slotsOfThree .synthetic limits few short).1⟩

end Expr

end SeqScript
