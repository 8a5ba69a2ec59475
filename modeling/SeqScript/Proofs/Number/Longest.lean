import Mathlib.Computability.RegularExpressions
import SeqScript.Proofs.Number.ReadBack

/-! Numerals as a regular expression. The texts that it matches are the written forms of numerals with
their parts in shape, and reading at a digit takes the longest of them, whatever the text goes on
with: a fraction and an exponent are taken when they are whole and left when they are not. -/
namespace SeqScript.Numeral
open CodeUnit Text

section Pattern

def oneOf (units : Text) : RegularExpression CodeUnit :=
  units.foldr (fun u others => .char u + others) 0

def perhaps (e : RegularExpression CodeUnit) : RegularExpression CodeUnit := 1 + e

def someDigits : RegularExpression CodeUnit :=
  oneOf (text "0123456789") * (oneOf (text "0123456789")).star

/-- The expression `[0-9]+(\.[0-9]+)?([eE][+-]?[0-9]+)?`. -/
def pattern : RegularExpression CodeUnit :=
  someDigits * perhaps (.char (unit '.') * someDigits) *
    perhaps (oneOf (text "eE") * perhaps (oneOf (text "+-")) * someDigits)

variable {t : Text}

theorem oneOfIff {units : Text} : t ∈ (oneOf units).matches' ↔ ∃ u ∈ units, t = [u] := by
  induction units with
  | nil => exact ⟨False.elim, fun ⟨_, member, _⟩ => absurd member List.not_mem_nil⟩
  | cons u units ih =>
    have split : t ∈ (oneOf (u :: units)).matches' ↔ t = [u] ∨ t ∈ (oneOf units).matches' := Iff.rfl
    rw [split, ih]
    simp

theorem perhapsIff {e : RegularExpression CodeUnit} :
    t ∈ (perhaps e).matches' ↔ t = [] ∨ t ∈ e.matches' := Iff.rfl

theorem digitIff {u : CodeUnit} : u ∈ text "0123456789" ↔ u.isDigit = true := by
  constructor
  · intro member
    exact List.all_eq_true.mp (rfl : (text "0123456789").all isDigit = true) u member
  · intro digit
    have range : 48 ≤ u.toNat ∧ u.toNat ≤ 57 := by
      simpa [isDigit, unit, UInt16.le_iff_toNat_le] using digit
    have listed : ∀ n ≤ 57, 48 ≤ n → UInt16.ofNat n ∈ text "0123456789" := by decide
    have member := listed u.toNat range.2 range.1
    rwa [UInt16.ofNat_toNat] at member

theorem someDigitsIff : t ∈ someDigits.matches' ↔ Digits t := by
  have split : t ∈ someDigits.matches' ↔ ∃ a ∈ (oneOf (text "0123456789")).matches',
      ∃ b ∈ (oneOf (text "0123456789")).star.matches', a ++ b = t := Language.mem_mul
  rw [split]
  constructor
  · rintro ⟨a, first, b, others, rfl⟩
    obtain ⟨u, member, rfl⟩ := oneOfIff.mp first
    obtain ⟨parts, rfl, each⟩ := Language.mem_kstar.mp others
    refine ⟨List.cons_ne_nil _ _, fun v found => ?_⟩
    rcases List.mem_cons.mp found with rfl | later
    · exact digitIff.mp member
    · obtain ⟨part, inside, here⟩ := List.mem_flatten.mp later
      obtain ⟨w, digit, rfl⟩ := oneOfIff.mp (each part inside)
      rw [List.mem_singleton.mp here]
      exact digitIff.mp digit
  · rintro ⟨nonempty, all⟩
    cases t with
    | nil => exact absurd rfl nonempty
    | cons u rest =>
      obtain ⟨first, others⟩ := List.forall_mem_cons.mp all
      refine ⟨[u], oneOfIff.mpr ⟨u, digitIff.mpr first, rfl⟩, rest, ?_, rfl⟩
      have alone : rest = (rest.map fun v => [v]).flatten := by
        rw [← List.flatMap_def, List.flatMap_singleton']
      refine Language.mem_kstar.mpr ⟨rest.map fun v => [v], alone, fun part member => ?_⟩
      obtain ⟨v, inside, rfl⟩ := List.mem_map.mp member
      exact oneOfIff.mpr ⟨v, digitIff.mpr (others v inside), rfl⟩

theorem fractionIff :
    t ∈ (perhaps (.char (unit '.') * someDigits)).matches' ↔ IsFraction t := by
  rw [perhapsIff]
  refine or_congr_right ?_
  constructor
  · rintro ⟨_, rfl, digits, all, rfl⟩
    exact ⟨digits, someDigitsIff.mp all, rfl⟩
  · rintro ⟨digits, all, rfl⟩
    exact ⟨[unit '.'], rfl, digits, someDigitsIff.mpr all, rfl⟩

theorem markIff {u : CodeUnit} : u ∈ text "eE" ↔ isMark u = true := by
  have units : text "eE" = [unit 'e', unit 'E'] := rfl
  simp [units, isMark]

theorem signIff {u : CodeUnit} : u ∈ text "+-" ↔ isSign u = true := by
  have units : text "+-" = [unit '+', unit '-'] := rfl
  simp [units, isSign]

theorem exponentIff :
    t ∈ (perhaps (oneOf (text "eE") * perhaps (oneOf (text "+-")) * someDigits)).matches' ↔
      IsExponent t := by
  rw [perhapsIff]
  refine or_congr_right ?_
  constructor
  · rintro ⟨_, ⟨mark, marked, sign, signed, rfl⟩, digits, all, rfl⟩
    obtain ⟨m, found, rfl⟩ := oneOfIff.mp marked
    refine ⟨m, sign, digits, markIff.mp found, ?_, someDigitsIff.mp all, by simp⟩
    refine (perhapsIff.mp signed).imp id fun one => ?_
    obtain ⟨s, member, rfl⟩ := oneOfIff.mp one
    exact ⟨s, signIff.mp member, rfl⟩
  · rintro ⟨mark, sign, digits, marked, signed, all, rfl⟩
    refine ⟨[mark] ++ sign, ⟨[mark], oneOfIff.mpr ⟨mark, markIff.mpr marked, rfl⟩, sign, ?_, rfl⟩,
      digits, someDigitsIff.mpr all, by simp⟩
    refine perhapsIff.mpr (signed.imp id fun ⟨s, plus, same⟩ => ?_)
    exact oneOfIff.mpr ⟨s, signIff.mpr plus, same⟩

theorem patternIff : t ∈ pattern.matches' ↔ ∃ n : Numeral, n.Shaped ∧ n.written = t := by
  constructor
  · rintro ⟨_, ⟨whole, digits, fraction, point, rfl⟩, exponent, power, rfl⟩
    exact ⟨⟨whole, fraction, exponent⟩,
      ⟨someDigitsIff.mp digits, fractionIff.mp point, exponentIff.mp power⟩, rfl⟩
  · rintro ⟨n, shaped, rfl⟩
    exact ⟨n.whole ++ n.fraction, ⟨n.whole, someDigitsIff.mpr shaped.whole, n.fraction,
      fractionIff.mpr shaped.fraction, rfl⟩, n.exponent, exponentIff.mpr shaped.exponent, rfl⟩

end Pattern

theorem splitFractionShape (t : Text) : IsFraction (splitFraction t).1 := by
  cases t with
  | nil => exact .inl rfl
  | cons u t =>
    simp only [splitFraction, Bool.and_eq_true, beq_iff_eq]
    split
    · rename_i point
      obtain ⟨rfl, begins⟩ := point
      exact .inr ⟨_, digitsSplit (digitsTaken begins), rfl⟩
    · exact .inl rfl

theorem splitSignShape (t : Text) :
    (splitSign t).1 = [] ∨ ∃ s, isSign s = true ∧ (splitSign t).1 = [s] := by
  cases t with
  | nil => exact .inl rfl
  | cons u t =>
    simp only [splitSign]
    split
    · rename_i sign
      exact .inr ⟨u, sign, rfl⟩
    · exact .inl rfl

theorem splitExponentShape (t : Text) : IsExponent (splitExponent t).1 := by
  cases t with
  | nil => exact .inl rfl
  | cons u t =>
    simp only [splitExponent, Bool.and_eq_true]
    split
    · rename_i mark
      exact .inr ⟨u, _, _, mark.1, splitSignShape t, digitsSplit (digitsTaken mark.2), rfl⟩
    · exact .inl rfl

theorem readShape {t : Text} (begins : Numeral.beginsWithDigit t = true) : (read t).1.Shaped where
  whole := digitsSplit (digitsTaken begins)
  fraction := splitFractionShape _
  exponent := splitExponentShape _

theorem splitDigitsMore {digits : Text} (all : Digits digits) (rest : Text) :
    splitDigits (digits ++ rest) = (digits ++ (splitDigits rest).1, (splitDigits rest).2) := by
  rw [splitDigits, List.takeWhile_append_of_pos all.2, List.dropWhile_append_of_pos all.2]
  rfl

theorem splitFractionMore {digits : Text} (all : Digits digits) (rest : Text) :
    splitFraction (unit '.' :: digits ++ rest) =
      (unit '.' :: digits ++ (splitDigits rest).1, (splitDigits rest).2) := by
  simp [splitFraction, beginsWithDigitRun all, splitDigitsMore all]

theorem splitExponentMore {mark : CodeUnit} {sign digits : Text} (marked : isMark mark = true)
    (signed : sign = [] ∨ ∃ s, isSign s = true ∧ sign = [s]) (all : Digits digits) (rest : Text) :
    splitExponent (mark :: (sign ++ digits) ++ rest) =
      (mark :: (sign ++ digits) ++ (splitDigits rest).1, (splitDigits rest).2) := by
  simp only [List.cons_append, splitExponent, marked, splitSignRun all signed,
    beginsWithDigitRun all, splitDigitsMore all, Bool.and_self, if_true]
  rw [List.append_assoc]

theorem readTakes {n : Numeral} (shaped : n.Shaped) (rest : Text) :
    n.written <+: (read (n.written ++ rest)).1.written := by
  obtain ⟨whole, fraction, exponent⟩ := n
  obtain ⟨digits, point, power⟩ := shaped
  dsimp only at digits point power
  simp only [read, written, List.append_assoc]
  rcases power with rfl | ⟨mark, sign, size, marked, signed, sized, rfl⟩
  · rcases point with rfl | ⟨tail, all, rfl⟩
    · rw [List.nil_append, List.nil_append, splitDigitsMore digits]
      simp
    · have noDigit : ∀ u ∈ (unit '.' :: tail ++ rest).head?, u.isDigit = false := by
        intro u head
        cases Option.some.inj head
        decide
      rw [List.nil_append, splitDigitsRun digits noDigit, splitFractionMore all]
      simp
  · have noDigit : ∀ u ∈ (mark :: (sign ++ size) ++ rest).head?, u.isDigit = false ∧ u ≠ unit '.' := by
      intro u head
      cases Option.some.inj head
      exact markPlain marked
    rw [splitDigitsRun digits (fractionHead point fun u head => (noDigit u head).1),
      splitFractionRun point (fun u head => (noDigit u head).1) fun u head => (noDigit u head).2,
      splitExponentMore marked signed sized]
    simp

structure Longest (language : Language CodeUnit) (t taken left : Text) : Prop where
  spelled : taken ∈ language
  whole : taken ++ left = t
  longest : ∀ other ∈ language, other <+: t → other.length ≤ taken.length

theorem readLongest {t : Text} (begins : Numeral.beginsWithDigit t = true) :
    Longest pattern.matches' t (read t).1.written (read t).2 where
  spelled := patternIff.mpr ⟨_, readShape begins, rfl⟩
  whole := readAppend t
  longest other spelled := by
    rintro ⟨rest, rfl⟩
    obtain ⟨n, shaped, rfl⟩ := patternIff.mp spelled
    exact (readTakes shaped rest).length_le

theorem Digits.endsInDigit {digits : Text} (all : Digits digits) (t : Text) :
    ∃ u, (t ++ digits).getLast? = some u ∧ u.isDigit = true := by
  obtain ⟨nonempty, inside⟩ := all
  refine ⟨digits.getLast nonempty, ?_, inside _ (List.getLast_mem nonempty)⟩
  rw [List.getLast?_append_of_ne_nil _ nonempty, List.getLast?_eq_some_getLast nonempty]

theorem Shaped.endsInDigit {n : Numeral} (shaped : n.Shaped) :
    ∃ u, n.written.getLast? = some u ∧ u.isDigit = true := by
  obtain ⟨whole, fraction, exponent⟩ := n
  obtain ⟨digits, point, power⟩ := shaped
  dsimp only at digits point power
  rcases power with rfl | ⟨mark, sign, size, _, _, sized, rfl⟩
  · rcases point with rfl | ⟨tail, all, rfl⟩
    · simpa [written] using digits.endsInDigit []
    · simpa [written] using all.endsInDigit (whole ++ [unit '.'])
  · simpa [written] using sized.endsInDigit (whole ++ fraction ++ mark :: sign)

end SeqScript.Numeral
