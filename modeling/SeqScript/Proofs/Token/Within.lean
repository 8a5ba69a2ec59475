import SeqScript.Proofs.Token.Local

/-! Reading that ends inside a text. A run, a numeral or a lexeme that stops in a text does not need what
stands behind the text: the text alone gives the same, with what was left of it. -/
namespace SeqScript
open CodeUnit

namespace Text

theorem nothingBefore {x r rest : Text} (parts : x ++ (r ++ rest) = rest) : x = [] ∧ r = [] := by
  rw [← List.append_assoc, List.append_left_eq_self] at parts
  exact List.append_eq_nil_iff.mp parts

theorem runWithin {p : CodeUnit → Bool} {t rest r : Text}
    (left : (t ++ rest).dropWhile p = r ++ rest) :
    (t ++ rest).takeWhile p = t.takeWhile p ∧ t.dropWhile p = r := by
  induction t with
  | nil =>
    have parts := List.takeWhile_append_dropWhile (p := p) (l := rest)
    rw [List.nil_append] at left ⊢
    rw [left] at parts
    obtain ⟨taken, rfl⟩ := nothingBefore parts
    exact ⟨taken, rfl⟩
  | cons u t ih =>
    by_cases inside : p u = true
    · simp only [List.cons_append, List.dropWhile_cons, List.takeWhile_cons, inside, if_true] at left ⊢
      exact ⟨congrArg (u :: ·) (ih left).1, (ih left).2⟩
    · simp only [List.cons_append, List.dropWhile_cons, List.takeWhile_cons, inside] at left ⊢
      exact ⟨rfl, (List.append_cancel_right left : u :: t = r)⟩

end Text

namespace Numeral
open Text

variable {t rest r x : Text}

theorem splitDigitsWithin (split : splitDigits (t ++ rest) = (x, r ++ rest)) :
    splitDigits t = (x, r) := by
  obtain ⟨taken, left⟩ := Prod.mk.inj split
  obtain ⟨same, back⟩ := runWithin left
  rw [splitDigits, ← same, taken, back]

theorem beginsWithDigitMore (begins : beginsWithDigit t = true) (rest : Text) :
    beginsWithDigit (t ++ rest) = true := by
  cases t with
  | nil => cases begins
  | cons u t => exact begins

theorem beginsWithDigitWithin (begins : beginsWithDigit (t ++ rest) = true)
    (left : (splitDigits (t ++ rest)).2 = r ++ rest) : beginsWithDigit t = true := by
  cases t with
  | cons u t => exact begins
  | nil =>
    have parts := splitDigitsAppend ([] ++ rest)
    rw [left] at parts
    exact absurd (nothingBefore parts).1 (digitsTaken begins)

theorem splitFractionWithin (split : splitFraction (t ++ rest) = (x, r ++ rest)) :
    splitFraction t = (x, r) := by
  cases t with
  | nil =>
    have parts := splitFractionAppend ([] ++ rest)
    rw [split] at parts
    obtain ⟨rfl, rfl⟩ := nothingBefore parts
    rfl
  | cons u t =>
    simp only [List.cons_append, splitFraction, Bool.and_eq_true] at split ⊢
    split at split
    · rename_i point
      obtain ⟨rfl, left⟩ := Prod.mk.inj split
      have alone := splitDigitsWithin (Prod.ext rfl left)
      rw [if_pos ⟨point.1, beginsWithDigitWithin point.2 left⟩, alone]
    · rename_i noPoint
      obtain ⟨rfl, left⟩ := Prod.mk.inj split
      obtain rfl : u :: t = r := List.append_cancel_right left
      exact if_neg fun point => noPoint ⟨point.1, beginsWithDigitMore point.2 rest⟩

theorem splitSignMore (nonempty : t ≠ []) (rest : Text) :
    splitSign (t ++ rest) = ((splitSign t).1, (splitSign t).2 ++ rest) := by
  cases t with
  | nil => exact absurd rfl nonempty
  | cons u t =>
    simp only [List.cons_append, splitSign]
    split <;> rfl

theorem signedWithin (begins : beginsWithDigit (splitSign (t ++ rest)).2 = true)
    (left : (splitDigits (splitSign (t ++ rest)).2).2 = r ++ rest) : t ≠ [] := by
  rintro rfl
  have digits := splitDigitsAppend (splitSign ([] ++ rest)).2
  have signed := splitSignAppend ([] ++ rest)
  rw [left] at digits
  rw [← digits, ← List.append_assoc] at signed
  exact digitsTaken begins (List.append_eq_nil_iff.mp (nothingBefore signed).1).2

theorem splitExponentWithin (split : splitExponent (t ++ rest) = (x, r ++ rest)) :
    splitExponent t = (x, r) := by
  cases t with
  | nil =>
    have parts := splitExponentAppend ([] ++ rest)
    rw [split] at parts
    obtain ⟨rfl, rfl⟩ := nothingBefore parts
    rfl
  | cons u t =>
    simp only [List.cons_append, splitExponent, Bool.and_eq_true] at split ⊢
    split at split
    · rename_i mark
      obtain ⟨rfl, left⟩ := Prod.mk.inj split
      have signed := splitSignMore (signedWithin mark.2 left) rest
      rw [signed] at mark left ⊢
      have alone := splitDigitsWithin (Prod.ext rfl left)
      rw [if_pos ⟨mark.1, beginsWithDigitWithin mark.2 left⟩, alone]
    · rename_i noMark
      obtain ⟨rfl, left⟩ := Prod.mk.inj split
      obtain rfl : u :: t = r := List.append_cancel_right left
      refine if_neg fun mark => noMark ⟨mark.1, ?_⟩
      have nonempty : t ≠ [] := by
        rintro rfl
        cases mark.2
      rw [splitSignMore nonempty]
      exact beginsWithDigitMore mark.2 rest

theorem readWithin {n : Numeral} (back : read (t ++ rest) = (n, r ++ rest)) : read t = (n, r) := by
  cases digits : splitDigits (t ++ rest) with | mk whole behindDigits =>
  cases fraction : splitFraction behindDigits with | mk point behindFraction =>
  cases exponent : splitExponent behindFraction with | mk power left =>
  simp only [read, digits, fraction, exponent] at back
  obtain ⟨rfl, rfl⟩ := Prod.mk.inj back
  have parts := splitExponentAppend behindFraction
  rw [exponent, ← List.append_assoc] at parts
  subst parts
  have parts := splitFractionAppend behindDigits
  rw [fraction, ← List.append_assoc] at parts
  subst parts
  simp only [read, splitDigitsWithin digits, splitFractionWithin fraction, splitExponentWithin exponent]

end Numeral

namespace Lexer
open Text

variable {u : CodeUnit} {t rest r : Text} {l : Lexeme}

theorem lexemeAlone (found : lexemeAt u (t ++ rest) = .ok l) (left : l.rest = r ++ rest) :
    lexemeAt u t = .ok { l with rest := r } := by
  have parts := lexemeAppend found
  unfold lexemeAt at found ⊢
  split at found
  · rename_i line
    cases found
    rw [if_pos line, List.append_cancel_right left]
  rename_i line
  rw [if_neg line]
  split at found
  · rename_i isMark
    rw [if_pos isMark]
    unfold stringAt at found ⊢
    split at found
    · rename_i f back
      cases found
      rw [left, ← List.append_assoc, ← List.cons_append] at parts
      have inside : f.written.length ≤ t.length := by
        have size := congrArg List.length (List.append_cancel_right parts)
        simp only [List.length_append, List.length_cons] at size
        omega
      obtain ⟨r', same, alone⟩ := Quoted.readWithin isMark back inside
      obtain rfl : r' = r := List.append_cancel_right (same.symm.trans left)
      rw [alone]
    · cases found
    · cases found
  rename_i noMark
  rw [if_neg noMark]
  split at found
  · rename_i digit
    cases found
    have back : Numeral.read (u :: t ++ rest) = (_, r ++ rest) := Prod.ext rfl left
    rw [if_pos digit, Numeral.readWithin back]
    rfl
  rename_i noDigit
  rw [if_neg noDigit]
  split at found
  · rename_i start
    cases found
    obtain ⟨taken, back⟩ := runWithin left
    rw [if_pos start, taken, back]
  rename_i noName
  rw [if_neg noName]
  split at found
  · rename_i kind single
    cases found
    rw [List.append_cancel_right left]
  · cases found

end Lexer

end SeqScript
