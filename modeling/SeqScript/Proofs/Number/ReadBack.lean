import SeqScript.Number.Numeral
import SeqScript.Proofs.Number.Rounding
import SeqScript.Text.Letter

/-! The text of a finite number without a sign is a numeral, and a reader that finds it in front of
anything but a letter, a digit or a point takes exactly that numeral and gets the number back. -/
namespace SeqScript.Text
open CodeUnit

def StandsApart (t : Text) : Prop := ∀ u ∈ t.head?, u.isNamePart = false ∧ u ≠ unit '.'

theorem takeRun {p : CodeUnit → Bool} {run rest : Text} (inside : ∀ u ∈ run, p u = true)
    (behind : ∀ u ∈ rest.head?, p u = false) :
    (run ++ rest).takeWhile p = run ∧ (run ++ rest).dropWhile p = rest := by
  induction run with
  | nil =>
    cases rest with
    | nil => exact ⟨rfl, rfl⟩
    | cons u rest => simp [behind u rfl]
  | cons u run ih =>
    obtain ⟨taken, left⟩ := ih fun v member => inside v (List.mem_cons_of_mem u member)
    simp [inside u List.mem_cons_self, taken, left]

theorem StandsApart.notDigit {t : Text} (apart : t.StandsApart) :
    ∀ u ∈ t.head?, u.isDigit = false := by
  intro u head
  apply Bool.eq_false_iff.mpr
  intro digit
  have part := namePartOfDigit digit
  rw [(apart u head).1] at part
  contradiction

theorem StandsApart.notMark {t : Text} (apart : t.StandsApart) :
    ∀ u ∈ t.head?, Numeral.isMark u = false := by
  intro u head
  apply Bool.eq_false_iff.mpr
  intro mark
  have part := (apart u head).1
  simp only [Numeral.isMark, Bool.or_eq_true, beq_iff_eq] at mark
  rcases mark with rfl | rfl <;> revert part <;> decide

end SeqScript.Text

namespace SeqScript.Numeral
open CodeUnit Text

def Digits (t : Text) : Prop := t ≠ [] ∧ ∀ u ∈ t, u.isDigit = true

theorem digitsOne {u : CodeUnit} (digit : u.isDigit = true) : Digits [u] :=
  ⟨List.cons_ne_nil u [], fun _ member => List.mem_singleton.mp member ▸ digit⟩

def IsFraction (t : Text) : Prop := t = [] ∨ ∃ digits, Digits digits ∧ t = unit '.' :: digits

def IsExponent (t : Text) : Prop := t = [] ∨ ∃ mark sign digits, isMark mark = true ∧
  (sign = [] ∨ ∃ s, isSign s = true ∧ sign = [s]) ∧ Digits digits ∧ t = mark :: (sign ++ digits)

structure Shaped (n : Numeral) : Prop where
  whole : Digits n.whole
  fraction : IsFraction n.fraction
  exponent : IsExponent n.exponent

theorem splitDigitsRun {digits rest : Text} (all : Digits digits)
    (behind : ∀ u ∈ rest.head?, u.isDigit = false) :
    splitDigits (digits ++ rest) = (digits, rest) := by
  obtain ⟨taken, left⟩ := takeRun all.2 behind
  rw [splitDigits, taken, left]

theorem digitsSplit {t : Text} (some : (splitDigits t).1 ≠ []) : Digits (splitDigits t).1 :=
  ⟨some, fun _ member => List.mem_takeWhile_imp member⟩

theorem digitsTaken {t : Text} (begins : beginsWithDigit t = true) : (splitDigits t).1 ≠ [] := by
  cases t with
  | nil => cases begins
  | cons u t =>
    have digit : u.isDigit = true := begins
    simp [splitDigits, digit]

theorem beginsWithDigitRun {digits : Text} (all : Digits digits) (rest : Text) :
    beginsWithDigit (digits ++ rest) = true := by
  cases digits with
  | nil => exact absurd rfl all.1
  | cons u digits => exact all.2 u List.mem_cons_self

theorem digitNoSign {u : CodeUnit} (digit : u.isDigit = true) : isSign u = false := by
  apply Bool.eq_false_iff.mpr
  intro sign
  simp only [isSign, Bool.or_eq_true, beq_iff_eq] at sign
  rcases sign with rfl | rfl <;> revert digit <;> decide

theorem splitSignRun {sign digits : Text} (all : Digits digits)
    (shape : sign = [] ∨ ∃ s, isSign s = true ∧ sign = [s]) (rest : Text) :
    splitSign (sign ++ digits ++ rest) = (sign, digits ++ rest) := by
  rcases shape with rfl | ⟨s, signed, rfl⟩
  · cases digits with
    | nil => exact absurd rfl all.1
    | cons u digits => simp [splitSign, digitNoSign (all.2 u List.mem_cons_self)]
  · simp [splitSign, signed]

theorem splitFractionRun {fraction rest : Text} (shape : IsFraction fraction)
    (digit : ∀ u ∈ rest.head?, u.isDigit = false) (point : ∀ u ∈ rest.head?, u ≠ unit '.') :
    splitFraction (fraction ++ rest) = (fraction, rest) := by
  rcases shape with rfl | ⟨digits, all, rfl⟩
  · cases rest with
    | nil => rfl
    | cons u rest => simp [splitFraction, point u rfl]
  · simp [splitFraction, beginsWithDigitRun all, splitDigitsRun all digit]

theorem splitExponentRun {exponent rest : Text} (shape : IsExponent exponent)
    (digit : ∀ u ∈ rest.head?, u.isDigit = false) (mark : ∀ u ∈ rest.head?, isMark u = false) :
    splitExponent (exponent ++ rest) = (exponent, rest) := by
  rcases shape with rfl | ⟨m, sign, digits, marked, signed, all, rfl⟩
  · cases rest with
    | nil => rfl
    | cons u rest => simp [splitExponent, mark u rfl]
  · simp only [List.cons_append, splitExponent, marked, splitSignRun all signed,
      beginsWithDigitRun all, splitDigitsRun all digit, Bool.and_self, if_true]

theorem markPlain {u : CodeUnit} (mark : isMark u = true) : u.isDigit = false ∧ u ≠ unit '.' := by
  simp only [isMark, Bool.or_eq_true, beq_iff_eq] at mark
  rcases mark with rfl | rfl <;> decide

theorem exponentHead {exponent rest : Text} (shape : IsExponent exponent)
    (apart : rest.StandsApart) :
    ∀ u ∈ (exponent ++ rest).head?, u.isDigit = false ∧ u ≠ unit '.' := by
  rcases shape with rfl | ⟨m, sign, digits, marked, _, _, rfl⟩
  · exact fun u head => ⟨apart.notDigit u head, (apart u head).2⟩
  · intro u head
    cases Option.some.inj head
    exact markPlain marked

theorem fractionHead {fraction rest : Text} (shape : IsFraction fraction)
    (digit : ∀ u ∈ rest.head?, u.isDigit = false) :
    ∀ u ∈ (fraction ++ rest).head?, u.isDigit = false := by
  rcases shape with rfl | ⟨digits, _, rfl⟩
  · exact digit
  · intro u head
    cases Option.some.inj head
    decide

theorem readShaped {n : Numeral} (shaped : n.Shaped) {rest : Text} (apart : rest.StandsApart) :
    read (n.written ++ rest) = (n, rest) := by
  have behind := exponentHead shaped.exponent apart
  have digit := fun u head => (behind u head).1
  simp only [read, written, List.append_assoc,
    splitDigitsRun shaped.whole (fractionHead shaped.fraction digit),
    splitFractionRun shaped.fraction digit fun u head => (behind u head).2,
    splitExponentRun shaped.exponent apart.notDigit apart.notMark]

theorem Shaped.beginsWithDigit {n : Numeral} (shaped : n.Shaped) :
    ∃ u rest, u.isDigit = true ∧ n.written = u :: rest := by
  obtain ⟨nonempty, all⟩ := shaped.whole
  cases h : n.whole with
  | nil => exact absurd h nonempty
  | cons u rest =>
    exact ⟨u, rest ++ n.fraction ++ n.exponent, all u (h ▸ List.mem_cons_self),
      by simp [written, h]⟩

theorem exponentValueNone (whole fraction : Text) : exponentValue ⟨whole, fraction, []⟩ = 0 := by
  simp [exponentValue, splitSign, digitsValue]

def signedExponent (e : Int) : Text :=
  unit 'e' :: (if e < 0 then unit '-' else unit '+') :: Text.ofNat e.natAbs

theorem signedExponentShape (e : Int) : IsExponent (signedExponent e) := by
  refine .inr ⟨unit 'e', [if e < 0 then unit '-' else unit '+'], Text.ofNat e.natAbs, rfl,
    .inr ⟨_, ?_, rfl⟩, ⟨ofNatNonempty _, ofNatDigits _⟩, rfl⟩
  split <;> decide

theorem exponentValueSigned (whole fraction : Text) (e : Int) :
    exponentValue ⟨whole, fraction, signedExponent e⟩ = e := by
  have minus : isSign (unit '-') = true := rfl
  have plus : isSign (unit '+') = true := rfl
  have different : unit '+' ≠ unit '-' := by decide
  unfold signedExponent
  generalize size : e.natAbs = n
  by_cases negative : e < 0
  · simp [exponentValue, negative, splitSign, minus, digitsValueOfNat]
    omega
  · simp [exponentValue, negative, splitSign, plus, different, digitsValueOfNat]
    omega

end SeqScript.Numeral

namespace SeqScript.Decimal
open Numeral Text

theorem digitsPart {run digits : Text} (all : ∀ u ∈ digits, u.isDigit = true)
    (inside : run ⊆ digits) (nonempty : run ≠ []) : Digits run :=
  ⟨nonempty, fun u member => all u (inside member)⟩

def Spells (n : Numeral) (t : Text) (d : Decimal) : Prop :=
  n.Shaped ∧ n.written = t ∧ n.decimal = d

theorem spellsWhole {ds : Text} (all : Digits ds) (k : Nat) :
    Spells ⟨ds ++ zeros k, [], []⟩ (ds ++ zeros k) ⟨digitsValue ds * 10 ^ k, 0⟩ := by
  have digits : ∀ u ∈ ds ++ zeros k, u.isDigit = true := fun u member =>
    (List.mem_append.mp member).elim (all.2 u) (zerosDigits k u)
  refine ⟨⟨⟨by simp [all.1], digits⟩, .inl rfl, .inl rfl⟩, by simp [written], ?_⟩
  simp [decimal, exponentValueNone, digitsValueAppendZeros]

theorem spellsPointed {front back : Text} (before : Digits front) (behind : Digits back) :
    Spells ⟨front, unit '.' :: back, []⟩ (front ++ unit '.' :: back)
      ⟨digitsValue (front ++ back), -back.length⟩ := by
  refine ⟨⟨before, .inr ⟨back, behind, rfl⟩, .inl rfl⟩, by simp [written], ?_⟩
  simp [decimal, exponentValueNone]

theorem spellsScaled {ds : Text} (all : Digits ds) (e : Int) :
    Spells ⟨ds, [], signedExponent e⟩ (ds ++ signedExponent e) ⟨digitsValue ds, e⟩ := by
  refine ⟨⟨all, .inl rfl, signedExponentShape e⟩, by simp [written], ?_⟩
  simp [decimal, exponentValueSigned]

theorem spellsPointedScaled {front back : Text} (before : Digits front) (behind : Digits back)
    (e : Int) :
    Spells ⟨front, unit '.' :: back, signedExponent e⟩ (front ++ unit '.' :: back ++ signedExponent e)
      ⟨digitsValue (front ++ back), e - back.length⟩ := by
  refine ⟨⟨before, .inr ⟨back, behind, rfl⟩, signedExponentShape e⟩, by simp [written], ?_⟩
  simp [decimal, exponentValueSigned]

theorem digitsCut {ds : Text} (all : ∀ u ∈ ds, u.isDigit = true) {c : Nat} (inside : 0 < c)
    (short : c < ds.length) : Digits (ds.take c) ∧ Digits (ds.drop c) := by
  have nonempty : ds ≠ [] := List.ne_nil_of_length_pos (by omega)
  refine ⟨digitsPart all (List.take_subset c ds) (by simp [nonempty]; omega),
    digitsPart all (List.drop_subset c ds) ?_⟩
  rw [ne_eq, List.drop_eq_nil_iff]
  omega

theorem spellsCut {ds : Text} (all : ∀ u ∈ ds, u.isDigit = true) {c : Nat} (inside : 0 < c)
    (short : c < ds.length) :
    Spells ⟨ds.take c, unit '.' :: ds.drop c, []⟩ (ds.take c ++ unit '.' :: ds.drop c)
      ⟨digitsValue ds, c - ds.length⟩ := by
  obtain ⟨front, back⟩ := digitsCut all inside short
  have spelled := spellsPointed front back
  have places : (-(ds.drop c).length : Int) = c - ds.length := by rw [List.length_drop]; omega
  rwa [List.take_append_drop, places] at spelled

theorem spellsCutScaled {ds : Text} (all : ∀ u ∈ ds, u.isDigit = true) (short : 1 < ds.length)
    (e : Int) :
    Spells ⟨ds.take 1, unit '.' :: ds.drop 1, signedExponent e⟩
      (ds.take 1 ++ unit '.' :: ds.drop 1 ++ signedExponent e) ⟨digitsValue ds, e + 1 - ds.length⟩ := by
  obtain ⟨front, back⟩ := digitsCut all Nat.one_pos short
  have spelled := spellsPointedScaled front back e
  have places : e - (ds.drop 1).length = e + 1 - ds.length := by rw [List.length_drop]; omega
  rwa [List.take_append_drop, places] at spelled

theorem spellsLeading {ds : Text} (all : Digits ds) (g : Nat) :
    Spells ⟨[unit '0'], unit '.' :: (zeros g ++ ds), []⟩ (text "0." ++ zeros g ++ ds)
      ⟨digitsValue ds, -(g + ds.length)⟩ := by
  have back : Digits (zeros g ++ ds) := ⟨by simp [all.1], fun u member =>
    (List.mem_append.mp member).elim (zerosDigits g u) (all.2 u)⟩
  have spelled := spellsPointed (digitsOne rfl : Digits [unit '0']) back
  have leading : digitsValue ([unit '0'] ++ (zeros g ++ ds)) = digitsValue ds := by
    have run : [unit '0'] ++ (zeros g ++ ds) = zeros (g + 1) ++ ds := rfl
    rw [run, digitsValueAppend, digitsValueZeros]
    simp
  have places : (-(zeros g ++ ds).length : Int) = -(g + ds.length) := by simp [zeros]
  have point : text "0." = [unit '0', unit '.'] := by decide
  rw [leading, places] at spelled
  rw [point]
  simpa using spelled

theorem layoutSpells {d : Decimal} {e : Int} (positive : 0 < d.digits)
    (place : d.point = d.significant.length + e) :
    ∃ n, Spells n d.layout ⟨digitsValue d.significant, e⟩ ∨
      0 ≤ e ∧ Spells n d.layout ⟨digitsValue d.significant * 10 ^ e.toNat, 0⟩ := by
  have all := significantDigits d
  have nonempty := significantNonempty positive
  have long : 0 < d.significant.length := List.length_pos_iff.mpr nonempty
  rw [layout]
  simp only [place]
  generalize d.significant = ds at *
  split
  · have count : ((ds.length : Int) + e).toNat - ds.length = e.toNat := by omega
    rw [count]
    exact ⟨_, .inr ⟨by omega, spellsWhole ⟨nonempty, all⟩ e.toNat⟩⟩
  split
  · have spelled := spellsCut all (c := ((ds.length : Int) + e).toNat) (by omega) (by omega)
    have exponent : (((ds.length : Int) + e).toNat : Int) - ds.length = e := by omega
    rw [exponent] at spelled
    exact ⟨_, .inl spelled⟩
  split
  · have spelled := spellsLeading ⟨nonempty, all⟩ (-((ds.length : Int) + e)).toNat
    have exponent : -(((-((ds.length : Int) + e)).toNat : Int) + ds.length) = e := by omega
    rw [exponent] at spelled
    exact ⟨_, .inl spelled⟩
  · have exponent : ∀ t : Text, t ++ unit 'e' :: (if (ds.length : Int) + e - 1 < 0 then unit '-'
        else unit '+') :: Text.ofNat ((ds.length : Int) + e - 1).natAbs =
        t ++ signedExponent ((ds.length : Int) + e - 1) := fun _ => rfl
    rw [exponent]
    split
    · have single : (ds.length : Int) + e - 1 = e := by omega
      rw [single]
      exact ⟨_, .inl (spellsScaled ⟨nonempty, all⟩ e)⟩
    · have spelled := spellsCutScaled all (by omega) ((ds.length : Int) + e - 1)
      have places : (ds.length : Int) + e - 1 + 1 - ds.length = e := by omega
      rw [places] at spelled
      exact ⟨_, .inl spelled⟩

theorem numeralOfLayout {d : Decimal} (positive : 0 < d.digits) :
    ∃ n : Numeral, n.Shaped ∧ n.written = d.layout ∧ n.toNumber = d.toNumber false := by
  obtain ⟨k, cut⟩ := significantZeros d
  have value : d.digits = digitsValue d.significant * 10 ^ k := by
    rw [← digitsValueAppendZeros, ← cut, digitsValueOfNat]
  have place : d.point = d.significant.length + (d.exponent + k) := by
    have size : length d.digits = d.significant.length + k := by
      rw [lengthEq, cut]; simp [zeros]
    simp only [point, size]; omega
  have moved : d.toNumber false = toNumber false ⟨digitsValue d.significant, d.exponent + k⟩ := by
    rw [← toNumberShift, ← value]
  obtain ⟨n, ⟨shaped, written, denoted⟩ | ⟨whole, shaped, written, denoted⟩⟩ :=
    layoutSpells positive place
  · refine ⟨n, shaped, written, ?_⟩
    rw [moved, Numeral.toNumber, denoted]
  · refine ⟨n, shaped, written, ?_⟩
    have exponent : (0 : Int) + (d.exponent + k).toNat = d.exponent + k := by omega
    rw [moved, Numeral.toNumber, denoted, toNumberShift, exponent]

end SeqScript.Decimal

namespace SeqScript.Number
open Numeral Text

theorem numeralOfText (m : Magnitude) :
    ∃ n : Numeral, n.Shaped ∧ n.written = (Number.finite false m).toText ∧
      n.toNumber = .finite false m := by
  by_cases zero : m.units = 0
  · have digit : Digits [unit '0'] := digitsOne rfl
    refine ⟨⟨[unit '0'], [], []⟩, ⟨digit, .inl rfl, .inl rfl⟩, ?_, ?_⟩
    · have written : text "0" = [unit '0'] := by decide
      simp [Numeral.written, toText, zero, written]
    · have none : digitsValue [unit '0'] = 0 := by decide
      have same := ofUnitsExact false m
      rw [zero] at same
      simp [Numeral.toNumber, decimal, exponentValueNone, none, Decimal.toNumber, same]
  · have positive : 0 < (Decimal.shortest m).digits := by
      refine Nat.pos_of_ne_zero fun none => zero ?_
      have back := Decimal.shortestReadsBack m
      rw [Decimal.toNumber, if_pos (.inl none)] at back
      have empty := ofUnitsExact false ⟨0, representableZero⟩
      rw [empty] at back
      cases back
      rfl
    obtain ⟨n, shaped, written, value⟩ := Decimal.numeralOfLayout positive
    refine ⟨n, shaped, ?_, value.trans (Decimal.shortestReadsBack m)⟩
    simp [written, toText, zero]

theorem colonlessDigits {t : Text} (all : ∀ u ∈ t, u.isDigit = true) : unit ':' ∉ t := fun member =>
  absurd (all _ member) (by decide)

theorem colonlessShaped {n : Numeral} (shaped : n.Shaped) : unit ':' ∉ n.written := by
  have fraction : unit ':' ∉ n.fraction := by
    rcases shaped.fraction with none | ⟨digits, all, same⟩
    · simp [none]
    · rw [same, List.mem_cons, not_or]
      exact ⟨by decide, colonlessDigits all.2⟩
  have exponent : unit ':' ∉ n.exponent := by
    rcases shaped.exponent with none | ⟨mark, sign, digits, isMark, signed, all, same⟩
    · simp [none]
    · rw [same, List.mem_cons, List.mem_append, not_or, not_or]
      refine ⟨?_, ?_, colonlessDigits all.2⟩
      · rintro rfl
        exact absurd isMark (by decide)
      · rcases signed with rfl | ⟨s, isSign, rfl⟩
        · exact List.not_mem_nil
        · intro member
          rw [← List.mem_singleton.mp member] at isSign
          exact absurd isSign (by decide)
  simp only [written, List.mem_append, not_or]
  exact ⟨⟨colonlessDigits shaped.whole.2, fraction⟩, exponent⟩

theorem colonlessText (x : Number) : unit ':' ∉ x.toText := by
  have positive (m : Magnitude) : unit ':' ∉ (Number.finite false m).toText := by
    obtain ⟨n, shaped, written, -⟩ := numeralOfText m
    exact written ▸ colonlessShaped shaped
  cases x with
  | nan => decide
  | infinite negative => cases negative <;> decide
  | finite negative m =>
    cases negative with
    | false => exact positive m
    | true =>
      have unsigned := positive m
      simp only [toText] at unsigned ⊢
      split at unsigned
      next zero => simpa [zero] using unsigned
      next some =>
        simp only [some, if_true, if_false, List.mem_cons, not_or]
        exact ⟨by decide, by simpa using unsigned⟩

end SeqScript.Number
