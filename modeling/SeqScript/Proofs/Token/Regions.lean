import SeqScript.Proofs.Token.Local
import SeqScript.Proofs.Token.Tiling

/-! Regions of a source. What stands between a bracket and its closer is lexed with a bracket open,
and neither what surrounds it nor how many brackets are open there tells in its tokens: the region
alone has the same ones. -/
namespace SeqScript
open CodeUnit

namespace TokenKind

def bracket : TokenKind → Option CodeUnit
  | .openParen => some (unit '(')
  | .closeParen => some (unit ')')
  | .openBracket => some (unit '[')
  | .closeBracket => some (unit ']')
  | _ => none

theorem bracketNoEnd {kind : TokenKind} {v : CodeUnit} (isBracket : kind.bracket = some v) :
    kind ≠ .endOfInput := by
  rintro rfl
  cases isBracket

theorem ofWordBracket (word : Text) : (ofWord word).bracket = none := by
  unfold ofWord
  repeat' split
  all_goals rfl

theorem ofUnitBracket {u v : CodeUnit} {kind : TokenKind} (found : ofUnit u = some kind)
    (isBracket : kind.bracket = some v) : u = v := by
  unfold ofUnit at found
  repeat' split at found
  all_goals
    cases found
  all_goals
    cases isBracket
  all_goals assumption

end TokenKind

namespace Lexer
open Text

variable {u v w : CodeUnit} {kind : TokenKind} {t rest : Text} {l : Lexeme}

theorem bracketLexeme (isBracket : kind.bracket = some v) (rest : Text) :
    lexemeAt v rest = .ok ⟨kind, [v], [v], rest⟩ ∧ Breaks (v :: rest) ∧ Solid v := by
  cases kind <;> cases isBracket <;> exact ⟨rfl, breaksCons rest (by decide), by decide⟩

theorem lexemeBracket (found : lexemeAt u rest = .ok l) (isBracket : l.kind.bracket = some v) :
    u = v ∧ l = ⟨l.kind, [v], [v], rest⟩ := by
  suffices same : u = v by
    subst same
    exact ⟨rfl, Except.ok.inj (found.symm.trans (bracketLexeme isBracket rest).1)⟩
  unfold lexemeAt at found
  split at found
  · cases found
    cases isBracket
  split at found
  · unfold stringAt at found
    split at found <;> cases found
    cases isBracket
  split at found
  · cases found
    cases isBracket
  split at found
  · cases found
    rw [TokenKind.ofWordBracket] at isBracket
    cases isBracket
  split at found
  · rename_i single
    cases found
    exact TokenKind.ofUnitBracket single isBracket
  · cases found

theorem tokensFromAt {depth : Nat} {here : Location} {before after : List Token} {tok : Token}
    (ok : tokensFrom depth here t = .ok (before ++ tok :: after)) (inner : tok.kind ≠ .endOfInput) :
    ∃ front u rest l, t = front ++ u :: rest ∧ lexemeAt u rest = .ok l ∧
      tok = ⟨l.kind, l.value, ⟨here.after front, (here.after front).after l.written⟩⟩ ∧
      tokensFrom (l.kind.depthAfter (depthBehind depth before)) tok.span.stop l.rest = .ok after := by
  induction before generalizing depth here t with
  | nil =>
    obtain ⟨skipped, u, rest, l, split, found, same, others⟩ :=
      tokensFromFirst ok fun isEnd => absurd isEnd inner
    have parts := splitTriviaAppend (depth != 0) false t
    rw [split] at parts
    exact ⟨skipped, u, rest, l, parts.symm, found, same, others⟩
  | cons first before ih =>
    obtain ⟨skipped, u, rest, l, split, found, rfl, others⟩ := tokensFromFirst ok fun _ => by simp
    obtain ⟨front, u', rest', l', same, found', isToken, behind⟩ := ih others
    have parts := splitTriviaAppend (depth != 0) false t
    rw [split] at parts
    refine ⟨skipped ++ l.written ++ front, u', rest', l', ?_, found', ?_, behind⟩
    · rw [← parts, List.append_assoc, List.append_assoc, ← same, lexemeAppend found]
    · rw [isToken, Location.afterAppend, Location.afterAppend]

def Stays (floor : Nat) : Nat → List Token → Prop
  | depth, [] => floor ≤ depth
  | depth, t :: ts => floor ≤ depth ∧ Stays floor (t.kind.depthAfter depth) ts

theorem Stays.here {floor depth : Nat} {ts : List Token} (stays : Stays floor depth ts) :
    floor ≤ depth := by
  cases ts with
  | nil => exact stays
  | cons t ts => exact stays.1

theorem lexemeInRegion {inBrackets : Bool} {skipped front x : Text}
    (isBracket : kind.bracket = some w)
    (split : splitTrivia inBrackets false (t ++ w :: rest) = (skipped, u :: x))
    (found : lexemeAt u x = .ok l) (whole : t = skipped ++ l.written ++ front) :
    ∃ y, splitTrivia inBrackets false (t ++ [w]) = (skipped, u :: y) ∧
      lexemeAt u y = .ok { l with rest := front ++ [w] } := by
  have all := splitTriviaAppend inBrackets false (t ++ w :: rest)
  have parts := lexemeAppend found
  obtain ⟨tail, written⟩ := lexemeHead found
  rw [split, whole, List.append_assoc, List.append_assoc] at all
  have same := List.append_cancel_left all
  rw [written] at same
  obtain rfl : x = (tail ++ front) ++ w :: rest := by simpa using same
  obtain ⟨r, behind, alone⟩ := lexemeExchange found (bracketLexeme isBracket rest).2.1
    (bracketLexeme isBracket []).2.1 fun _ => by rw [written]; simp
  rw [written, behind] at parts
  obtain rfl : r = front := by simpa using parts
  rw [List.append_cons] at split
  obtain ⟨y, kept, _, trivia⟩ := triviaWithin split (by rw [whole, written]; simp)
  rw [whole, written] at kept
  obtain rfl : y = u :: (tail ++ r ++ [w]) := by simpa using kept.symm
  exact ⟨_, trivia, alone⟩

theorem opened {depth : Nat} (inside : 1 ≤ depth) : (depth != 0) = true :=
  bne_iff_ne.mpr (Nat.ne_of_gt inside)

theorem closerElsewhere {depth : Nat} (closer : kind.bracket = some w)
    (split : splitTrivia (depth != 0) false (t ++ w :: rest) = (t, w :: rest)) (there : Location) :
    ∃ c last, tokensFrom depth there (t ++ [w]) = .ok [c, last] ∧ last.kind = .endOfInput ∧
      c.lexical = (kind, [w]) := by
  rw [List.append_cons] at split
  obtain ⟨r, kept, _, trivia⟩ := triviaWithin split (by simp)
  cases List.append_cancel_left kept
  have nothing (inBrackets : Bool) : splitTrivia inBrackets false [] = ([], []) := rfl
  have lexed := tokensFromStep trivia (bracketLexeme closer []).1
    (tokensFromEnd (nothing _) ((there.after t).after [w]))
  exact ⟨⟨kind, [w], ⟨_, _⟩⟩, _, lexed, rfl, rfl⟩

theorem regionElsewhere {depth : Nat} {here : Location} {us ys : List Token} {c : Token}
    (lexed : tokensFrom depth here (t ++ w :: rest) = .ok (us ++ c :: ys))
    (closer : c.kind.bracket = some w) (place : c.span.start.offset = here.offset + t.length)
    (inside : Stays 1 depth us) {depth' : Nat} (inside' : Stays 1 depth' us) (there : Location) :
    ∃ vs last, tokensFrom depth' there (t ++ [w]) = .ok (vs ++ [last]) ∧
      last.kind = .endOfInput ∧ vs.map Token.lexical = (us ++ [c]).map Token.lexical := by
  have solid := TokenKind.bracketNoEnd closer
  -- The closer is known by its offset: what is lexed in front of it is the text in front of it.
  induction us generalizing depth here t depth' there with
  | nil =>
    obtain ⟨skipped, u, x, l, split, found, isToken, _⟩ :=
      tokensFromFirst lexed fun isEnd => absurd isEnd solid
    have parts := splitTriviaAppend (depth != 0) false (t ++ w :: rest)
    rw [split] at parts
    rw [isToken, Location.offsetAfter] at place
    have isBracket : l.kind.bracket = some w := by
      rw [isToken] at closer
      exact closer
    obtain ⟨rfl, same⟩ := List.append_inj parts (Nat.add_left_cancel place)
    cases same
    obtain ⟨_, written⟩ := lexemeBracket found isBracket
    rw [opened inside, ← opened inside'] at split
    obtain ⟨c', last, lexed', ends, alike⟩ := closerElsewhere isBracket split there
    refine ⟨[c'], last, lexed', ends, ?_⟩
    rw [isToken, written, List.map_singleton, alike]
    rfl
  | cons first us ih =>
    obtain ⟨skipped, u, x, l, split, found, rfl, others⟩ := tokensFromFirst lexed fun _ => by simp
    obtain ⟨front, v, z, m, same, _, isToken, _⟩ := tokensFromAt others solid
    have parts := splitTriviaAppend (depth != 0) false (t ++ w :: rest)
    rw [split] at parts
    rw [← lexemeAppend found, same, ← List.append_assoc, ← List.append_assoc] at parts
    have begins := congrArg (·.span.start.offset) isToken
    simp only [Location.offsetAfter] at begins
    obtain ⟨whole, tail⟩ := List.append_inj parts (by simp; omega)
    cases tail
    obtain ⟨y, trivia, alone⟩ := lexemeInRegion closer split found whole.symm
    rw [opened inside.1, ← opened inside'.1] at trivia
    rw [same] at others
    obtain ⟨vs, last, lexed', ends, alike⟩ := ih others (by simp [Location.offsetAfter]; omega)
      inside.2 inside'.2 ((there.after skipped).after l.written)
    have whole' := tokensFromStep trivia alone lexed'
    refine ⟨⟨l.kind, l.value, ⟨_, _⟩⟩ :: vs, last, whole', ends, ?_⟩
    exact congrArg ((l.kind, l.value) :: ·) alike

structure Region (source : Text) (v w : CodeUnit) (o c : Token) (depth : Nat) (ts : List Token)
    (front mid behind : Text) : Prop where
  whole : source = front ++ (v :: (mid ++ [w]) ++ behind)
  start : o.span.start.offset = front.length
  place : c.span.start.offset = o.span.stop.offset + mid.length
  stop : c.span.stop.offset = (front ++ v :: (mid ++ [w])).length
  value : o.value = [v]
  inner : tokensFrom (o.kind.depthAfter depth) o.span.stop (mid ++ w :: behind) = .ok ts

theorem bracketFound {here : Location} {front : Text} {o : Token} (found : lexemeAt u rest = .ok l)
    (isToken : o = ⟨l.kind, l.value, ⟨here.after front, (here.after front).after l.written⟩⟩)
    (isBracket : o.kind.bracket = some v) : u = v ∧ l.rest = rest ∧ o.value = [v] ∧
      o.span.start.offset = here.offset + front.length ∧
      o.span.stop.offset = here.offset + front.length + 1 := by
  subst isToken
  obtain ⟨rfl, written⟩ := lexemeBracket found isBracket
  rw [written]
  have start := Location.offsetAfter here front
  exact ⟨rfl, rfl, rfl, start, (Location.offsetNext _ _).trans (congrArg (· + 1) start)⟩

theorem regionFound {source : Text} {before us after : List Token} {o c : Token}
    (lexed : tokenize source = .ok (before ++ o :: (us ++ c :: after)))
    (opener : o.kind.bracket = some v) (closer : c.kind.bracket = some w) :
    ∃ front mid behind, Region source v w o c (depthBehind 0 before) (us ++ c :: after)
      front mid behind := by
  obtain ⟨front, u, rest, l, whole, found, isOpener, inner⟩ :=
    tokensFromAt lexed (TokenKind.bracketNoEnd opener)
  obtain ⟨mid, x, behind, m, whole', found', isCloser, _⟩ :=
    tokensFromAt inner (TokenKind.bracketNoEnd closer)
  obtain ⟨rfl, left, value, start, stop⟩ := bracketFound found isOpener opener
  obtain ⟨rfl, _, _, start', stop'⟩ := bracketFound found' isCloser closer
  have first : Location.first.offset = 0 := rfl
  rw [first, Nat.zero_add] at start stop
  have kind : l.kind = o.kind := (congrArg Token.kind isOpener).symm
  rw [whole', kind] at inner
  refine ⟨front, mid, behind, ?_, start, start', ?_, value, inner⟩
  · rw [whole, ← left, whole']
    simp
  · rw [stop', stop]
    simp
    omega

theorem regionLexes {source : Text} {before us after : List Token} {o c : Token}
    (lexed : tokenize source = .ok (before ++ o :: (us ++ c :: after)))
    (opener : o.kind.bracket = some v) (closer : c.kind.bracket = some w)
    (opens : ∀ depth, o.kind.depthAfter depth = depth + 1)
    (inside : ∀ depth, Stays 1 (depth + 1) us) :
    ∃ (mid : Text) (vs : List Token) (last : Token),
      (Span.mk o.span.start c.span.stop).slice source = v :: (mid ++ [w]) ∧
        tokenize (v :: (mid ++ [w])) = .ok (vs ++ [last]) ∧ last.kind = .endOfInput ∧
        vs.map Token.lexical = (o :: (us ++ [c])).map Token.lexical := by
  obtain ⟨front, mid, behind, region⟩ := regionFound lexed opener closer
  have stays (depth : Nat) : Stays 1 (o.kind.depthAfter depth) us := by
    rw [opens]
    exact inside depth
  obtain ⟨vs, last, alone, stop, alike⟩ := regionElsewhere region.inner closer region.place (stays _)
    (stays 0) ((Location.first.after []).after [v])
  obtain ⟨lexeme, _, solid⟩ := bracketLexeme opener (mid ++ [w])
  have lexed' := tokensFromStep (splitTriviaSolid solid (0 != 0) _) lexeme alone
  refine ⟨mid, ⟨o.kind, [v], ⟨_, _⟩⟩ :: vs, last, ?_, lexed', stop, ?_⟩
  · rw [Span.slice, region.start, region.stop]
    exact Text.betweenSplit region.whole
  · rw [List.map_cons, alike, List.map_cons, Token.lexical, Token.lexical, region.value]

end Lexer

end SeqScript
