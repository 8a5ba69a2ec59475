import SeqScript.Proofs.Token.Adjacent

/-! What a lexeme depends on. A text that breaks every lexeme ends the one in front of it, whatever
else stands in it; so a lexeme that was found in front of one such text is found in front of all of
them. Trivia that end before the text behind them do not depend on it either. -/
namespace SeqScript

namespace Text
open CodeUnit

/-- No lexeme in front of this text goes on in it. A sign could go on an exponent. -/
structure Breaks (t : Text) : Prop where
  apart : t.StandsApart
  noSign : ∀ u ∈ t.head?, Numeral.isSign u = false

theorem breaksNothing : Breaks [] where
  apart u none := by cases none
  noSign u none := by cases none

theorem breaksCons {u : CodeUnit} (t : Text)
    (breaks : u.isNamePart = false ∧ u ≠ unit '.' ∧ Numeral.isSign u = false) : Breaks (u :: t) where
  apart v head := by
    cases Option.some.inj head
    exact ⟨breaks.1, breaks.2.1⟩
  noSign v head := by
    cases Option.some.inj head
    exact breaks.2.2

theorem breaksNewline (t : Text) : Breaks (newline :: t) := breaksCons t (by decide)

theorem runBefore {p : CodeUnit → Bool} (t : Text) {rest : Text}
    (behind : ∀ u ∈ rest.head?, p u = false) :
    (t ++ rest).takeWhile p = t.takeWhile p ∧ (t ++ rest).dropWhile p = t.dropWhile p ++ rest := by
  induction t with
  | nil =>
    cases rest with
    | nil => exact ⟨rfl, rfl⟩
    | cons u rest => simp [behind u rfl]
  | cons u t ih =>
    by_cases inside : p u = true
    · simp [inside, ih]
    · simp [inside]

end Text

namespace Numeral
open CodeUnit Text

variable {rest : Text}

theorem splitDigitsBefore (breaks : rest.Breaks) (t : Text) :
    splitDigits (t ++ rest) = ((splitDigits t).1, (splitDigits t).2 ++ rest) := by
  obtain ⟨taken, left⟩ := runBefore t breaks.apart.notDigit
  rw [splitDigits, taken, left, splitDigits]

theorem beginsWithDigitBefore (breaks : rest.Breaks) (t : Text) :
    beginsWithDigit (t ++ rest) = beginsWithDigit t := by
  cases t with
  | cons u t => rfl
  | nil =>
    cases rest with
    | nil => rfl
    | cons u rest => exact breaks.apart.notDigit u rfl

theorem splitFractionBefore (breaks : rest.Breaks) (t : Text) :
    splitFraction (t ++ rest) = ((splitFraction t).1, (splitFraction t).2 ++ rest) := by
  cases t with
  | cons u t =>
    simp only [List.cons_append, splitFraction, beginsWithDigitBefore breaks,
      splitDigitsBefore breaks]
    split
    · rfl
    · rfl
  | nil =>
    cases rest with
    | nil => rfl
    | cons u rest => simp [splitFraction, (breaks.apart u rfl).2]

theorem splitSignBefore (breaks : rest.Breaks) (t : Text) :
    splitSign (t ++ rest) = ((splitSign t).1, (splitSign t).2 ++ rest) := by
  cases t with
  | cons u t =>
    simp only [List.cons_append, splitSign]
    split
    · rfl
    · rfl
  | nil =>
    cases rest with
    | nil => rfl
    | cons u rest => simp [splitSign, breaks.noSign u rfl]

theorem splitExponentBefore (breaks : rest.Breaks) (t : Text) :
    splitExponent (t ++ rest) = ((splitExponent t).1, (splitExponent t).2 ++ rest) := by
  cases t with
  | cons u t =>
    simp only [List.cons_append, splitExponent, splitSignBefore breaks, beginsWithDigitBefore breaks,
      splitDigitsBefore breaks]
    split
    · rfl
    · rfl
  | nil =>
    cases rest with
    | nil => rfl
    | cons u rest => simp [splitExponent, breaks.apart.notMark u rfl]

theorem readBefore (breaks : rest.Breaks) (t : Text) :
    read (t ++ rest) = ((read t).1, (read t).2 ++ rest) := by
  simp only [read, splitDigitsBefore breaks, splitFractionBefore breaks, splitExponentBefore breaks]

end Numeral

namespace Quoted
open CodeUnit

variable {mark : CodeUnit} {t rest : Text} {f : Found}

theorem readBefore (isMark : IsMark mark) (found : read mark t = .ok f) (rest : Text) :
    read mark (t ++ rest) = .ok { f with rest := f.rest ++ rest } := by
  obtain ⟨body, written, decodes⟩ := decodesOfRead found
  have parts := readAppend found
  rw [written, List.append_assoc, List.singleton_append] at parts
  rw [← parts, List.append_assoc, List.cons_append, readDecoded isMark decodes, written]

theorem readWithin (isMark : IsMark mark) (found : read mark (t ++ rest) = .ok f)
    (inside : f.written.length ≤ t.length) :
    ∃ r, f.rest = r ++ rest ∧ read mark t = .ok { f with rest := r } := by
  obtain ⟨body, written, decodes⟩ := decodesOfRead found
  have parts := readAppend found
  obtain ⟨r, rfl⟩ : f.written <+: t :=
    List.prefix_of_prefix_length_le ⟨f.rest, parts⟩ (List.prefix_append t rest) inside
  rw [List.append_assoc] at parts
  refine ⟨r, List.append_cancel_left parts, ?_⟩
  rw [written, List.append_assoc, List.singleton_append, readDecoded isMark decodes]

theorem Decodes.inLine {body value : Text} (decodes : Decodes mark body value) : newline ∉ body := by
  induction decodes with
  | nothing => exact List.not_mem_nil
  | plain line _ _ _ ih => exact List.not_mem_cons_of_ne_of_not_mem line.symm ih
  | escaped names _ ih =>
    have lines : escapes.all (fun p => p.1 != newline) = true := rfl
    have other := bne_iff_ne.mp (List.all_eq_true.mp lines _ names)
    exact List.not_mem_cons_of_ne_of_not_mem (by decide)
      (List.not_mem_cons_of_ne_of_not_mem other.symm ih)

end Quoted

namespace Lexer
open CodeUnit Text

variable {u : CodeUnit} {t rest : Text} {l : Lexeme}

def Lexeme.before (l : Lexeme) (rest : Text) : Lexeme := { l with rest := l.rest ++ rest }

theorem lexemeUnquoted (noMark : ¬ (u = quote ∨ u = apostrophe)) (breaks : rest.Breaks) (t : Text) :
    lexemeAt u (t ++ rest) = (lexemeAt u t).map (Lexeme.before · rest) := by
  obtain ⟨taken, left⟩ := runBefore (p := isNamePart) t fun v head => (breaks.apart v head).1
  have numeral := Numeral.readBefore breaks (u :: t)
  rw [List.cons_append] at numeral
  simp only [lexemeAt, if_neg noMark, numeral, taken, left]
  split
  · rfl
  split
  · rfl
  split
  · rfl
  · split
    · rfl
    · rfl

theorem lexemeBefore (found : lexemeAt u t = .ok l) (breaks : rest.Breaks) :
    lexemeAt u (t ++ rest) = .ok (l.before rest) := by
  by_cases isMark : u = quote ∨ u = apostrophe
  · unfold lexemeAt at found ⊢
    have line : u ≠ newline := by rcases isMark with rfl | rfl <;> decide
    simp only [if_neg line, if_pos isMark, stringAt] at found ⊢
    split at found
    · rename_i f back
      cases found
      rw [Quoted.readBefore isMark back]
      rfl
    · cases found
    · cases found
  · rw [lexemeUnquoted isMark breaks, found]
    rfl

theorem lexemeWithin (found : lexemeAt u (t ++ rest) = .ok l) (breaks : rest.Breaks)
    (inside : l.kind = .string → l.written.length ≤ t.length + 1) :
    ∃ l', l = l'.before rest ∧ lexemeAt u t = .ok l' := by
  by_cases isMark : u = quote ∨ u = apostrophe
  · unfold lexemeAt at found ⊢
    have line : u ≠ newline := by rcases isMark with rfl | rfl <;> decide
    simp only [if_neg line, if_pos isMark, stringAt] at found ⊢
    split at found
    · rename_i f back
      cases found
      obtain ⟨r, same, alone⟩ := Quoted.readWithin isMark back (by simpa using inside rfl)
      rw [alone]
      exact ⟨_, by rw [same]; rfl, rfl⟩
    · cases found
    · cases found
  · rw [lexemeUnquoted isMark breaks] at found
    cases alone : lexemeAt u t with
    | error p => rw [alone] at found; cases found
    | ok l' =>
      rw [alone] at found
      exact ⟨l', (Except.ok.inj found).symm, rfl⟩

theorem lexemeExchange {other : Text} (found : lexemeAt u (t ++ rest) = .ok l)
    (breaks : rest.Breaks) (breaks' : other.Breaks)
    (inside : l.kind = .string → l.written.length ≤ t.length + 1) :
    ∃ r, l.rest = r ++ rest ∧ lexemeAt u (t ++ other) = .ok { l with rest := r ++ other } := by
  obtain ⟨l', rfl, alone⟩ := lexemeWithin found breaks inside
  exact ⟨l'.rest, rfl, lexemeBefore alone breaks'⟩

/-- Trivia that are skipped, whatever stands behind them. The first flag says that a comment is open
before them, the second that one is open behind them. -/
inductive Skips (inBrackets : Bool) : Bool → Text → Bool → Prop
  | nothing {comment} : Skips inBrackets comment [] comment
  | blank {u t comment} (blank : isBlank u = true) (others : Skips inBrackets false t comment) :
      Skips inBrackets false (u :: t) comment
  | opened {t comment} (others : Skips inBrackets true t comment) :
      Skips inBrackets false (unit '#' :: t) comment
  | comment {u t comment} (inLine : u ≠ newline) (others : Skips inBrackets true t comment) :
      Skips inBrackets true (u :: t) comment
  | line {before t comment} (inside : inBrackets = true) (others : Skips inBrackets false t comment) :
      Skips inBrackets before (newline :: t) comment
  | continued {t comment} (others : Skips inBrackets false t comment) :
      Skips inBrackets false (backslash :: newline :: t) comment

def Stops (inBrackets comment : Bool) : Text → Prop
  | [] => True
  | u :: rest => u = newline ∧ inBrackets = false ∨
      comment = false ∧ u ≠ newline ∧ isBlank u = false ∧ u ≠ unit '#' ∧
        (u = backslash → rest.head? ≠ some newline)

variable {inBrackets comment opened : Bool} {t skipped rest : Text} {u : CodeUnit}

theorem Skips.append {between : Bool} {more : Text}
    (first : Skips inBrackets comment skipped between) (second : Skips inBrackets between more opened) :
    Skips inBrackets comment (skipped ++ more) opened := by
  induction first with
  | nothing => exact second
  | blank blank _ ih => exact .blank blank (ih second)
  | opened _ ih => exact .opened (ih second)
  | comment inLine _ ih => exact .comment inLine (ih second)
  | line inside _ ih => exact .line inside (ih second)
  | continued _ ih => exact .continued (ih second)

theorem splitTriviaOpened (inBrackets : Bool) (t : Text) :
    splitTrivia inBrackets false (unit '#' :: t) =
      splitTrivia.keep (unit '#') (splitTrivia inBrackets true t) := by
  have plain : isBlank (unit '#') = false := rfl
  cases t <;> simp [splitTrivia, plain]

theorem splitTriviaLine (comment : Bool) (t : Text) :
    splitTrivia true comment (newline :: t) =
      splitTrivia.keep newline (splitTrivia true false t) := by
  have plain : isBlank newline = false ∧ newline ≠ unit '#' := by decide
  cases comment <;> cases t <;> simp [splitTrivia, plain]

theorem splitTriviaContinued (inBrackets : Bool) (t : Text) :
    splitTrivia inBrackets false (backslash :: newline :: t) =
      splitTrivia.keep backslash (splitTrivia.keep newline (splitTrivia inBrackets false t)) := by
  have plain : isBlank backslash = false ∧ backslash ≠ unit '#' ∧ backslash ≠ newline := by decide
  simp [splitTrivia, plain]

theorem splitStops (stops : Stops inBrackets comment rest) :
    splitTrivia inBrackets comment rest = ([], rest) := by
  cases rest with
  | nil => simp [splitTrivia]
  | cons u rest =>
    rcases stops with ⟨rfl, outside⟩ | ⟨outside, line, blank, opens, slash⟩
    · have plain : isBlank newline = false ∧ newline ≠ unit '#' := by decide
      cases comment <;> cases rest <;> simp [splitTrivia, outside, plain]
    · subst outside
      cases rest with
      | nil => simp [splitTrivia, line, blank, opens]
      | cons v rest =>
        have broken : u = backslash → v ≠ newline := fun same next => slash same (by rw [next]; rfl)
        simp only [splitTrivia, line, blank, opens]
        by_cases same : u = backslash
        · simp [same, broken same]
        · simp [same]

theorem splitSkipped (skips : Skips inBrackets comment skipped opened)
    (stops : Stops inBrackets opened rest) :
    splitTrivia inBrackets comment (skipped ++ rest) = (skipped, rest) := by
  induction skips with
  | nothing => exact splitStops stops
  | blank blank _ ih => rw [List.cons_append, splitTriviaBlank blank, ih stops]
  | opened _ ih => rw [List.cons_append, splitTriviaOpened, ih stops, splitTrivia.keep]
  | comment inLine _ ih => simp [splitTrivia, splitTrivia.keep, inLine, ih stops]
  | line inside _ ih =>
    subst inside
    rw [List.cons_append, splitTriviaLine, ih stops, splitTrivia.keep]
  | continued _ ih =>
    rw [List.cons_append, List.cons_append, splitTriviaContinued, ih stops, splitTrivia.keep,
      splitTrivia.keep]

theorem skipsSplit (inBrackets comment : Bool) (t : Text) :
    ∃ opened, Skips inBrackets comment (splitTrivia inBrackets comment t).1 opened ∧
      Stops inBrackets opened (splitTrivia inBrackets comment t).2 := by
  fun_induction splitTrivia inBrackets comment t with
  | case1 comment => exact ⟨comment, .nothing, trivial⟩
  | case2 rest inside ih =>
    obtain ⟨opened, skips, stops⟩ := ih
    exact ⟨opened, .line inside skips, stops⟩
  | case3 rest outside => exact ⟨true, .nothing, .inl ⟨rfl, Bool.eq_false_iff.mpr outside⟩⟩
  | case4 u rest inLine ih =>
    obtain ⟨opened, skips, stops⟩ := ih
    exact ⟨opened, .comment inLine skips, stops⟩
  | case5 u rest blank ih =>
    obtain ⟨opened, skips, stops⟩ := ih
    exact ⟨opened, .blank blank skips, stops⟩
  | case6 rest _ ih =>
    obtain ⟨opened, skips, stops⟩ := ih
    exact ⟨opened, .opened skips, stops⟩
  | case7 rest inside _ _ ih =>
    obtain ⟨opened, skips, stops⟩ := ih
    exact ⟨opened, .line inside skips, stops⟩
  | case8 rest outside => exact ⟨false, .nothing, .inl ⟨rfl, Bool.eq_false_iff.mpr outside⟩⟩
  | case9 => exact ⟨false, .nothing, .inr ⟨rfl, by decide, by decide, by decide, fun _ => by simp⟩⟩
  | case10 rest _ _ _ ih =>
    obtain ⟨opened, skips, stops⟩ := ih
    exact ⟨opened, .continued skips, stops⟩
  | case11 v rest other =>
    exact ⟨false, .nothing, .inr ⟨rfl, by decide, by decide, by decide, fun _ => by simpa using other⟩⟩
  | case12 u rest blank comment line slash =>
    exact ⟨false, .nothing, .inr ⟨rfl, line, Bool.eq_false_iff.mpr blank, comment,
      fun same => absurd same slash⟩⟩

theorem Stops.before (stops : Stops inBrackets opened (u :: t)) (whole : u ≠ backslash)
    (other : Text) : Stops inBrackets opened (u :: other) := by
  rcases stops with line | ⟨outside, inLine, blank, opens, _⟩
  · exact .inl line
  · exact .inr ⟨outside, inLine, blank, opens, fun same => absurd same whole⟩

theorem Stops.within (stops : Stops inBrackets opened (t ++ rest)) (nonempty : t ≠ []) :
    Stops inBrackets opened t := by
  cases t with
  | nil => exact absurd rfl nonempty
  | cons u t =>
    rcases stops with line | ⟨outside, inLine, blank, opens, slash⟩
    · exact .inl line
    · refine .inr ⟨outside, inLine, blank, opens, fun same continues => ?_⟩
      have joined : (t ++ rest).head? = some newline := by
        rw [List.head?_append, continues]
        rfl
      exact slash same joined

theorem triviaElsewhere (split : splitTrivia inBrackets comment t = (skipped, u :: rest))
    (whole : u ≠ backslash) (other : Text) :
    splitTrivia inBrackets comment (skipped ++ u :: other) = (skipped, u :: other) := by
  obtain ⟨opened, skips, stops⟩ := skipsSplit inBrackets comment t
  rw [split] at skips stops
  exact splitSkipped skips (stops.before whole other)

theorem triviaBefore (split : splitTrivia inBrackets comment t = (skipped, u :: rest))
    (whole : u ≠ backslash) (other : Text) :
    splitTrivia inBrackets comment (t ++ other) = (skipped, u :: (rest ++ other)) := by
  have parts := splitTriviaAppend inBrackets comment t
  rw [split] at parts
  rw [← parts, List.append_assoc]
  exact triviaElsewhere split whole (rest ++ other)

theorem triviaBeforeLine (split : splitTrivia false comment t = (skipped, [])) (rest : Text) :
    splitTrivia false comment (t ++ newline :: rest) = (t, newline :: rest) := by
  have parts := splitTriviaAppend false comment t
  obtain ⟨opened, skips, _⟩ := skipsSplit false comment t
  rw [split, List.append_nil] at parts
  rw [split, parts] at skips
  have stops : Stops false opened (newline :: rest) := .inl ⟨rfl, rfl⟩
  exact splitSkipped skips stops

theorem triviaWithin {left : Text}
    (split : splitTrivia inBrackets comment (t ++ rest) = (skipped, left))
    (inside : skipped.length < t.length) :
    ∃ r, t = skipped ++ r ∧ left = r ++ rest ∧ splitTrivia inBrackets comment t = (skipped, r) := by
  have parts := splitTriviaAppend inBrackets comment (t ++ rest)
  obtain ⟨opened, skips, stops⟩ := skipsSplit inBrackets comment (t ++ rest)
  rw [split] at parts skips stops
  obtain ⟨r, rfl⟩ : skipped <+: t :=
    List.prefix_of_prefix_length_le ⟨left, parts⟩ (List.prefix_append t rest) inside.le
  rw [List.append_assoc] at parts
  have same := List.append_cancel_left parts
  rw [same] at stops
  have nonempty : r ≠ [] := by
    rintro rfl
    simp at inside
  exact ⟨r, rfl, same, splitSkipped skips (stops.within nonempty)⟩

theorem lexemeHead (found : lexemeAt u t = .ok l) : ∃ tail, l.written = u :: tail := by
  have parts := lexemeAppend found
  cases written : l.written with
  | nil => exact absurd written (lexemeNonempty found)
  | cons v tail =>
    rw [written] at parts
    cases parts
    exact ⟨tail, rfl⟩

theorem lexemeSolid (found : lexemeAt u t = .ok l) : u ≠ backslash := by
  rintro rfl
  have none : lexemeAt backslash t = .error ⟨[], .unexpectedCharacter backslash⟩ := rfl
  cases none.symm.trans found

theorem tokensFromStep {depth : Nat} {here : Location} {ts : List Token}
    (split : splitTrivia (depth != 0) false t = (skipped, u :: rest))
    (found : lexemeAt u rest = .ok l)
    (others : tokensFrom (l.kind.depthAfter depth) ((here.after skipped).after l.written) l.rest =
      .ok ts) :
    tokensFrom depth here t =
      .ok (⟨l.kind, l.value, ⟨here.after skipped, (here.after skipped).after l.written⟩⟩ :: ts) := by
  rw [tokensFromLexeme split found, others]
  rfl

theorem tokensFromFirst {depth : Nat} {here : Location} {first : Token} {ts : List Token}
    (ok : tokensFrom depth here t = .ok (first :: ts))
    (inner : first.kind = .endOfInput → ts ≠ []) :
    ∃ skipped u rest l, splitTrivia (depth != 0) false t = (skipped, u :: rest) ∧
      lexemeAt u rest = .ok l ∧
      first = ⟨l.kind, l.value, ⟨here.after skipped, (here.after skipped).after l.written⟩⟩ ∧
      tokensFrom (l.kind.depthAfter depth) first.span.stop l.rest = .ok ts := by
  cases split : splitTrivia (depth != 0) false t with
  | mk skipped left =>
    cases left with
    | nil =>
      rw [tokensFromEnd split] at ok
      cases ok
      exact absurd rfl (inner rfl)
    | cons u rest =>
      cases found : lexemeAt u rest with
      | error p =>
        rw [tokensFromProblem split found] at ok
        cases ok
      | ok l =>
        rw [tokensFromLexeme split found] at ok
        cases others : tokensFrom (l.kind.depthAfter depth) ((here.after skipped).after l.written)
            l.rest with
        | error f => rw [others] at ok; cases ok
        | ok us =>
          rw [others] at ok
          cases ok
          exact ⟨skipped, u, rest, l, rfl, found, rfl, others⟩

theorem tokensElsewhere {depth : Nat} {here : Location} {ts : List Token}
    (ok : tokensFrom depth here t = .ok ts) (there : Location) :
    ∃ us, tokensFrom depth there t = .ok us ∧ us.map Token.lexical = ts.map Token.lexical := by
  fun_induction tokensFrom depth here t generalizing there ts with
  | case1 depth here t skipped split =>
    cases ok
    exact ⟨_, tokensFromEnd split there, rfl⟩
  | case2 => cases ok
  | case3 depth here t skipped u rest split _ l found =>
    rename_i others ih
    cases ok
    obtain ⟨us, lexed, same⟩ := ih others ((there.after skipped).after l.written)
    refine ⟨_, by rw [tokensFromLexeme split found, lexed]; rfl, ?_⟩
    simp [same, Token.lexical]
  | case4 => cases ok

end Lexer

end SeqScript
