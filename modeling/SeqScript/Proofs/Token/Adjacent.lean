import SeqScript.Proofs.Number.ReadBack
import SeqScript.Proofs.Text.Quoted
import SeqScript.Token.Lexer

/-! Texts that stand next to each other. A text lexes to some tokens when it does so in front of
every text that may follow it; two such texts lex to the tokens of both when the second may follow
the first. A text may also stop the lexer, and then so does every text that begins with it. -/
namespace SeqScript

abbrev Lexical := TokenKind × Text

def Token.lexical (t : Token) : Lexical := (t.kind, t.value)

namespace CodeUnit

theorem nameStartNotDigit {u : CodeUnit} (start : u.isNameStart = true) : u.isDigit = false := by
  apply Bool.eq_false_iff.mpr
  intro digit
  have range : 48 ≤ u.toNat ∧ u.toNat ≤ 57 := by
    simpa [isDigit, unit, UInt16.le_iff_toNat_le] using digit
  have small : u < 0x80 := by rw [UInt16.lt_iff_toNat_lt]; exact Nat.lt_of_le_of_lt range.2 (by decide)
  have letters : u = unit '_' ∨ 97 ≤ u.toNat ∧ u.toNat ≤ 122 ∨ 65 ≤ u.toNat ∧ u.toNat ≤ 90 := by
    simp only [isNameStart, isLetter, small, if_true, isAsciiLetter, Bool.or_eq_true, beq_iff_eq,
      Bool.and_eq_true, decide_eq_true_eq, UInt16.le_iff_toNat_le] at start
    rcases start with (lower | upper) | line
    · exact .inr (.inl lower)
    · exact .inr (.inr upper)
    · exact .inl line
  rcases letters with rfl | lower | upper
  · revert range; decide
  · omega
  · omega

end CodeUnit

namespace Lexer
open CodeUnit Text

def Solid (u : CodeUnit) : Prop :=
  isBlank u = false ∧ u ≠ unit '#' ∧ u ≠ newline ∧ u ≠ backslash

instance (u) : Decidable (Solid u) := by unfold Solid; infer_instance

theorem splitTriviaSolid {u : CodeUnit} (solid : Solid u) (inBrackets : Bool) (rest : Text) :
    splitTrivia inBrackets false (u :: rest) = ([], u :: rest) := by
  obtain ⟨blank, comment, line, slash⟩ := solid
  cases rest <;> simp [splitTrivia, blank, comment, line, slash]

theorem splitTriviaBlank {u : CodeUnit} (blank : isBlank u = true) (inBrackets : Bool)
    (rest : Text) : splitTrivia inBrackets false (u :: rest) =
      (u :: (splitTrivia inBrackets false rest).1, (splitTrivia inBrackets false rest).2) := by
  cases rest <;> simp [splitTrivia, splitTrivia.keep, blank]

theorem tokensFromLexeme {depth : Nat} {source skipped rest : Text} {u : CodeUnit} {l : Lexeme}
    (trivia : splitTrivia (depth != 0) false source = (skipped, u :: rest))
    (found : lexemeAt u rest = .ok l) (here : Location) :
    tokensFrom depth here source =
      (tokensFrom (l.kind.depthAfter depth) ((here.after skipped).after l.written) l.rest).map
        (⟨l.kind, l.value, ⟨here.after skipped, (here.after skipped).after l.written⟩⟩ :: ·) := by
  rw [tokensFrom]
  split
  · rename_i h; rw [trivia] at h; cases h
  · rename_i skipped' u' rest' h
    rw [trivia] at h
    cases h
    split
    · rename_i p h; rw [found] at h; cases h
    · rename_i l' h
      rw [found] at h
      cases h
      dsimp only
      cases tokensFrom (l.kind.depthAfter depth) ((here.after skipped).after l.written) l.rest <;> rfl

theorem tokensFromProblem {depth : Nat} {source skipped rest : Text} {u : CodeUnit} {p : Problem}
    (trivia : splitTrivia (depth != 0) false source = (skipped, u :: rest))
    (found : lexemeAt u rest = .error p) (here : Location) :
    tokensFrom depth here source = .error ⟨p.cause, some ((here.after skipped).after p.before)⟩ := by
  rw [tokensFrom]
  split
  · rename_i h; rw [trivia] at h; cases h
  · rename_i h
    rw [trivia] at h
    cases h
    split
    · rename_i h; rw [found] at h; cases h; rfl
    · rename_i h; rw [found] at h; cases h

theorem tokensFromEnd {depth : Nat} {source skipped : Text}
    (trivia : splitTrivia (depth != 0) false source = (skipped, [])) (here : Location) :
    tokensFrom depth here source =
      .ok [⟨.endOfInput, [], ⟨here.after skipped, here.after skipped⟩⟩] := by
  rw [tokensFrom]
  split
  · rename_i h; rw [trivia] at h; cases h; rfl
  · rename_i h; rw [trivia] at h; cases h

theorem tokensFromSkipped {u : CodeUnit} {depth : Nat} {rest : Text}
    (head : splitTrivia (depth != 0) false (u :: rest) =
      (u :: (splitTrivia (depth != 0) false rest).1, (splitTrivia (depth != 0) false rest).2))
    (here : Location) : tokensFrom depth here (u :: rest) = tokensFrom depth (here.next u) rest := by
  cases split : splitTrivia (depth != 0) false rest with
  | mk skipped left =>
    rw [split] at head
    cases left with
    | nil => rw [tokensFromEnd head, tokensFromEnd split]; rfl
    | cons v left =>
      cases found : lexemeAt v left with
      | error p => rw [tokensFromProblem head found, tokensFromProblem split found]; rfl
      | ok l => rw [tokensFromLexeme head found, tokensFromLexeme split found]; rfl

theorem tokensFromBlank {u : CodeUnit} (blank : isBlank u = true) (depth : Nat) (here : Location)
    (rest : Text) : tokensFrom depth here (u :: rest) = tokensFrom depth (here.next u) rest :=
  tokensFromSkipped (splitTriviaBlank blank (depth != 0) rest) here

/-- What a text does to the lexer in front of every text that may follow: it gives these tokens,
or it is refused for this cause. -/
def Lexes (depth : Nat) (t : Text) (outcome : Except Cause (List Lexical)) (after : Nat)
    (follow : Text → Prop) : Prop :=
  ∀ (here : Location) (rest : Text), follow rest →
    match outcome with
    | .ok xs => ∃ ts : List Token, ts.map Token.lexical = xs ∧
        tokensFrom depth here (t ++ rest) = (tokensFrom after (here.after t) rest).map (ts ++ ·)
    | .error cause => ∃ place, tokensFrom depth here (t ++ rest) = .error ⟨cause, some place⟩

def joined (x y : Except Cause (List Lexical)) : Except Cause (List Lexical) :=
  x.bind fun xs => y.map (xs ++ ·)

def Anything (_ : Text) : Prop := True

theorem Lexes.append {d d' d'' : Nat} {s t : Text} {x y p q} (first : Lexes d s x d' p)
    (second : Lexes d' t y d'' q) (fits : ∀ rest, q rest → p (t ++ rest)) :
    Lexes d (s ++ t) (joined x y) d'' q := by
  intro here rest follow
  rw [List.append_assoc]
  have front := first here (t ++ rest) (fits rest follow)
  have back := second (here.after s) rest follow
  cases x with
  | error cause => exact front
  | ok xs =>
    obtain ⟨ts, same, head⟩ := front
    cases y with
    | error cause =>
      obtain ⟨place, tail⟩ := back
      exact ⟨place, by rw [head, tail]; rfl⟩
    | ok ys =>
      obtain ⟨us, same', tail⟩ := back
      refine ⟨ts ++ us, by simp [same, same'], ?_⟩
      rw [head, tail, Location.afterAppend]
      cases tokensFrom d'' ((here.after s).after t) rest with
      | error f => rfl
      | ok tokens => simp [Except.map]

theorem Lexes.weaken {d d' : Nat} {t : Text} {x p q} (lexes : Lexes d t x d' p)
    (fewer : ∀ rest, q rest → p rest) : Lexes d t x d' q :=
  fun here rest follow => lexes here rest (fewer rest follow)

theorem lexesNothing (depth : Nat) : Lexes depth [] (.ok []) depth Anything := by
  intro here rest _
  refine ⟨[], rfl, ?_⟩
  simp only [List.nil_append, Location.afterNil]
  cases tokensFrom depth here rest <;> rfl

theorem lexesBlank {u : CodeUnit} (blank : isBlank u = true) (depth : Nat) :
    Lexes depth [u] (.ok []) depth Anything := by
  intro here rest _
  refine ⟨[], rfl, ?_⟩
  rw [List.singleton_append, tokensFromBlank blank]
  simp only [Location.afterCons, Location.afterNil, List.nil_append]
  cases tokensFrom depth (here.next u) rest <;> rfl

theorem lexesLexeme {u : CodeUnit} {t value : Text} {kind : TokenKind} {follow : Text → Prop}
    (depth : Nat) (start : ∀ rest, splitTrivia (depth != 0) false (u :: rest) = ([], u :: rest))
    (found : ∀ rest, follow rest → lexemeAt u (t ++ rest) = .ok ⟨kind, value, u :: t, rest⟩) :
    Lexes depth (u :: t) (.ok [(kind, value)]) (kind.depthAfter depth) follow := by
  intro here rest may
  exact ⟨[⟨kind, value, ⟨here, here.after (u :: t)⟩⟩], rfl,
    tokensFromLexeme (start (t ++ rest)) (found rest may) here⟩

def Begins (u : CodeUnit) : Prop := Solid u ∧ u ≠ quote ∧ u ≠ apostrophe

instance (u) : Decidable (Begins u) := by unfold Begins; infer_instance

def markers : Text := [unit ' ', unit '\t', unit '\r', unit '\x0c', unit '#', newline, backslash,
  quote, apostrophe]

theorem beginsOf {p : CodeUnit → Bool} {u : CodeUnit} (inside : p u = true)
    (outside : markers.any p = false) : Begins u := by
  have other : ∀ v ∈ markers, u ≠ v := by
    rintro v member rfl
    exact List.any_eq_false.mp outside u member inside
  simp only [markers, List.forall_mem_cons] at other
  obtain ⟨space, tab, back, feed, comment, line, slash, double, single, _⟩ := other
  simp [Begins, Solid, isBlank, space, tab, back, feed, comment, line, slash, double, single]

def StandsFor (u : CodeUnit) (kind : TokenKind) : Prop :=
  Begins u ∧ u.isDigit = false ∧ u.isNameStart = false ∧ TokenKind.ofUnit u = some kind

instance (u kind) : Decidable (StandsFor u kind) := by unfold StandsFor; infer_instance

theorem lexesUnit {u : CodeUnit} {kind : TokenKind} (stands : StandsFor u kind) (depth : Nat) :
    Lexes depth [u] (.ok [(kind, [u])]) (kind.depthAfter depth) Anything := by
  obtain ⟨⟨solid, noQuote, noApostrophe⟩, noDigit, noName, single⟩ := stands
  refine lexesLexeme _ (fun rest => splitTriviaSolid solid _ rest) fun rest _ => ?_
  simp [lexemeAt, solid.2.2.1, noQuote, noApostrophe, noDigit, noName, single]

theorem lexesNewline : Lexes 0 [newline] (.ok [(.newline, [newline])]) 0 Anything := by
  have notBlank : isBlank newline = false := rfl
  have notComment : newline ≠ unit '#' := by decide
  refine lexesLexeme _ (fun rest => ?_) fun rest _ => ?_
  · cases rest <;> simp [splitTrivia, notBlank, notComment]
  · simp [lexemeAt]

theorem lexesNowhere {u : CodeUnit} (begins : Begins u) (noDigit : u.isDigit = false)
    (noName : u.isNameStart = false) (none : TokenKind.ofUnit u = none) (depth after : Nat)
    (t : Text) : Lexes depth (u :: t) (.error (.unexpectedCharacter u)) after Anything := by
  obtain ⟨solid, noQuote, noApostrophe⟩ := begins
  intro here rest _
  have found : lexemeAt u (t ++ rest) = .error ⟨[], .unexpectedCharacter u⟩ := by
    simp [lexemeAt, solid.2.2.1, noQuote, noApostrophe, noDigit, noName, none]
  exact ⟨here, tokensFromProblem (splitTriviaSolid solid _ (t ++ rest)) found here⟩

theorem solidQuote : Solid quote := by decide

theorem lexemeWritten (value rest : Text) :
    lexemeAt quote (value.flatMap Quoted.escape ++ quote :: rest) =
      .ok ⟨.string, value, Quoted.write value, rest⟩ := by
  have line : quote ≠ newline := by decide
  simp [lexemeAt, line, stringAt, Quoted.readWritten, Quoted.write]

theorem lexesString (value : Text) (depth : Nat) :
    Lexes depth (Quoted.write value) (.ok [(.string, value)]) depth Anything := by
  refine lexesLexeme _ (fun rest => splitTriviaSolid solidQuote _ rest) fun rest _ => ?_
  have same : (value.flatMap Quoted.escape).append [quote] ++ rest =
      value.flatMap Quoted.escape ++ quote :: rest := List.append_assoc ..
  rw [same]
  exact lexemeWritten value rest

def IsWord (t : Text) : Prop :=
  ∃ u rest, t = u :: rest ∧ u.isNameStart = true ∧ ∀ v ∈ rest, v.isNamePart = true

theorem wordOf {u : CodeUnit} {rest : Text} (start : u.isNameStart = true)
    (parts : rest.all CodeUnit.isNamePart = true) : IsWord (u :: rest) :=
  ⟨u, rest, rfl, start, List.all_eq_true.mp parts⟩

theorem depthAfterWord (word : Text) (depth : Nat) :
    (TokenKind.ofWord word).depthAfter depth = depth := by
  unfold TokenKind.ofWord
  repeat' split
  all_goals rfl

theorem lexesWord {word : Text} (shaped : IsWord word) (depth : Nat) :
    Lexes depth word (.ok [(.ofWord word, word)]) depth StandsApart := by
  obtain ⟨u, t, rfl, start, parts⟩ := shaped
  obtain ⟨solid, noQuote, noApostrophe⟩ := beginsOf start rfl
  have found (rest : Text) (apart : rest.StandsApart) :
      lexemeAt u (t ++ rest) = .ok ⟨.ofWord (u :: t), u :: t, u :: t, rest⟩ := by
    obtain ⟨taken, left⟩ := takeRun parts fun v head => (apart v head).1
    simp [lexemeAt, solid.2.2.1, noQuote, noApostrophe, nameStartNotDigit start, start, taken, left]
  have lexes := lexesLexeme depth (fun rest => splitTriviaSolid solid _ rest) found
  rwa [depthAfterWord] at lexes

theorem solidDigit {u : CodeUnit} (digit : u.isDigit = true) : Solid u := (beginsOf digit rfl).1

theorem lexemeDigit {u : CodeUnit} (digit : u.isDigit = true) (rest : Text) :
    lexemeAt u rest = .ok ⟨.number, (Numeral.read (u :: rest)).1.written,
      (Numeral.read (u :: rest)).1.written, (Numeral.read (u :: rest)).2⟩ := by
  obtain ⟨solid, noQuote, noApostrophe⟩ := beginsOf digit rfl
  simp [lexemeAt, solid.2.2.1, noQuote, noApostrophe, digit]

theorem lexesNumeral {n : Numeral} (shaped : n.Shaped) (depth : Nat) :
    Lexes depth n.written (.ok [(.number, n.written)]) depth StandsApart := by
  obtain ⟨u, t, digit, same⟩ := shaped.beginsWithDigit
  rw [same]
  refine lexesLexeme _ (fun rest => splitTriviaSolid (solidDigit digit) _ rest) fun rest apart => ?_
  have back := Numeral.readShaped shaped apart
  rw [same, List.cons_append] at back
  rw [lexemeDigit digit, back, same]

end Lexer

end SeqScript
