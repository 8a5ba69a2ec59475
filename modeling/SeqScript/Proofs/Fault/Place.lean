import SeqScript.Fault.Report
import SeqScript.Proofs.Number.ReadBack

/-! Texts that end like a place: the reader that takes the place of a report off its message takes
off whatever reads like one, once, and leaves every other text as it is. -/
namespace SeqScript

namespace Text
open CodeUnit Numeral

def PlaceBehind (t before : Text) : Prop :=
  ∃ line column, Digits line ∧ Digits column ∧
    t = before ++ (text " at " ++ line ++ text ":" ++ column)

def EndsInPlace (t : Text) : Prop := ∃ before, t.PlaceBehind before

def EndsPlain (t : Text) : Prop := (t.getLast?.any fun u => !u.isDigit) = true
instance (t : Text) : Decidable t.EndsPlain := inferInstanceAs (Decidable (_ = true))

theorem EndsPlain.behind {t : Text} (ends : t.EndsPlain) (s : Text) : (s ++ t).EndsPlain := by
  unfold EndsPlain at *
  rw [List.getLast?_append]
  cases last : t.getLast? with
  | none => simp [last] at ends
  | some u => rwa [last] at ends

theorem digitsReversed {digits : Text} (all : Digits digits) : Digits digits.reverse :=
  ⟨by simpa using all.1, fun u member => all.2 u (List.mem_reverse.mp member)⟩

theorem PlaceBehind.colon {t before : Text} (place : t.PlaceBehind before) :
    ∃ front column, Digits column ∧ t = front ++ unit ':' :: column := by
  obtain ⟨line, column, -, digits, rfl⟩ := place
  have colon : text ":" = [unit ':'] := rfl
  exact ⟨before ++ (text " at " ++ line), column, digits, by simp [colon]⟩

theorem EndsPlain.notInPlace {t : Text} (ends : t.EndsPlain) : ¬ t.EndsInPlace := by
  rintro ⟨before, place⟩
  obtain ⟨front, column, ⟨some, all⟩, rfl⟩ := place.colon
  have last := List.getLast?_eq_some_getLast some
  have digit := all _ (List.getLast_mem some)
  simp [EndsPlain, List.getLast?_append, List.getLast?_cons, last, digit] at ends

theorem notInPlaceBehind (m : Text) {mark : CodeUnit} (noDigit : mark.isDigit = false)
    (noColon : mark ≠ unit ':') {tail : Text} (colonless : unit ':' ∉ tail) :
    ¬ (m ++ mark :: tail).EndsInPlace := by
  rintro ⟨before, place⟩
  obtain ⟨front, column, ⟨-, all⟩, same⟩ := place.colon
  rcases List.append_eq_append_iff.mp same with ⟨between, -, cut⟩ | ⟨between, -, cut⟩
  · cases between with
    | nil => exact noColon (List.cons.inj cut).1
    | cons u between =>
      have inside : unit ':' ∈ tail := by simp [(List.cons.inj cut).2]
      exact colonless inside
  · cases between with
    | nil => exact noColon (List.cons.inj cut).1.symm
    | cons u between =>
      have inside : mark ∈ column := by simp [(List.cons.inj cut).2]
      simp [all mark inside] at noDigit

end Text

namespace Report
open CodeUnit Numeral Text

theorem withoutSuffixCut {t before : Text} (place : t.PlaceBehind before) :
    withoutSuffix t = before := by
  obtain ⟨line, column, lineDigits, columnDigits, rfl⟩ := place
  have colon : text ":" = [unit ':'] := rfl
  have turned : (before ++ (text " at " ++ line ++ text ":" ++ column)).reverse =
      column.reverse ++ (unit ':' :: (line.reverse ++
        ((text " at ").reverse ++ before.reverse))) := by simp [colon]
  have columnTurned := digitsReversed columnDigits
  have lineTurned := digitsReversed lineDigits
  unfold withoutSuffix
  rw [turned, splitDigitsRun columnTurned fun u head => by cases Option.mem_some.mp head; decide]
  dsimp only
  rw [splitDigitsRun lineTurned fun u head => by cases Option.mem_some.mp head; decide]
  dsimp only
  rw [if_pos ⟨rfl, columnTurned.1, lineTurned.1, by simp⟩, List.drop_left, List.reverse_reverse]

theorem withoutSuffixBehind (m : Text) (l : Location) : withoutSuffix (m ++ l.suffix) = m :=
  withoutSuffixCut ⟨ofNat l.line, ofNat l.column, ⟨ofNatNonempty l.line, ofNatDigits l.line⟩,
    ⟨ofNatNonempty l.column, ofNatDigits l.column⟩, rfl⟩

/- The reader asks of both numbers that they are there; that they are digits it has seen. -/
theorem withoutSuffixCases (t : Text) :
    withoutSuffix t = t ∨ t.PlaceBehind (withoutSuffix t) := by
  have columnCut := splitDigitsAppend t.reverse
  have columnAll := digitsSplit (t := t.reverse)
  unfold withoutSuffix
  generalize splitDigits t.reverse = cut at *
  obtain ⟨column, before⟩ := cut
  cases before with
  | nil => exact .inl rfl
  | cons mark before =>
    have lineCut := splitDigitsAppend before
    have lineAll := digitsSplit (t := before)
    dsimp only at *
    generalize splitDigits before = cut at *
    obtain ⟨line, front⟩ := cut
    dsimp only at *
    split
    next found =>
      obtain ⟨rfl, someColumn, someLine, blank⟩ := found
      obtain ⟨front, rfl⟩ := List.isPrefixOf_iff_prefix.mp blank
      refine .inr ⟨line.reverse, column.reverse, digitsReversed (lineAll someLine),
        digitsReversed (columnAll someColumn), ?_⟩
      have colon : text ":" = [unit ':'] := rfl
      rw [List.drop_left, ← List.reverse_reverse t, ← columnCut, ← lineCut]
      simp [colon]
    next => exact .inl rfl

theorem withoutSuffixKeeps (t : Text) : withoutSuffix t = t ↔ ¬ t.EndsInPlace := by
  constructor
  · rintro same ⟨before, place⟩
    have cut := withoutSuffixCut place
    obtain ⟨line, column, -, -, shape⟩ := place
    have lengths := congrArg List.length (same.symm.trans cut)
    rw [shape] at lengths
    simp [List.length_append, text, ofString, ofChar] at lengths
  · intro none
    exact (withoutSuffixCases t).resolve_right fun place => none ⟨_, place⟩

instance (t : Text) : Decidable t.EndsInPlace :=
  decidable_of_iff (¬ withoutSuffix t = t) (by rw [withoutSuffixKeeps, Classical.not_not])

example : (text "stopped at 1:2").EndsInPlace ∧ ¬ (text "stopped at 1:").EndsInPlace := by decide

end Report

end SeqScript
