import SeqScript.Proofs.Text.Quoted
import SeqScript.Proofs.Token.Places

/-! Tokens and trivia tile the source. Between two tokens stands nothing but trivia, a token says
what is written in its span, and a newline is trivia inside brackets and a token outside. The parts
are stated of the tokens behind some text, so that they can be put together from the last token to
the first. -/
namespace SeqScript

def Text.between (source : Text) (start stop : Nat) : Text := (source.take stop).drop start

def Span.slice (source : Text) (s : Span) : Text := source.between s.start.offset s.stop.offset

theorem Text.betweenSplit {source front middle rest : Text}
    (whole : source = front ++ (middle ++ rest)) :
    source.between front.length (front ++ middle).length = middle := by
  rw [whole, ← List.append_assoc, between, List.take_left, List.drop_left]

theorem Location.offsetBehind {here : Location} {front : Text} (stands : here.offset = front.length)
    (t : Text) : (here.after t).offset = (front ++ t).length := by
  rw [offsetAfter, stands, List.length_append]

namespace Lexer
open CodeUnit

inductive Trivium (inBrackets : Prop) (rest : Text) : Text → Prop
  | blank {u : CodeUnit} (blank : isBlank u = true) : Trivium inBrackets rest [u]
  | comment {c : Text} (inLine : newline ∉ c) (stops : ∀ u ∈ rest.head?, u = newline) :
      Trivium inBrackets rest (unit '#' :: c)
  | continued : Trivium inBrackets rest [backslash, newline]
  | newline (inside : inBrackets) : Trivium inBrackets rest [newline]

inductive Trivia (inBrackets : Prop) (rest : Text) : Text → Prop
  | nothing : Trivia inBrackets rest []
  | more {piece t : Text} (head : Trivium inBrackets (t ++ rest) piece)
      (others : Trivia inBrackets rest t) : Trivia inBrackets rest (piece ++ t)

def Skipped (inBrackets : Prop) : Bool → Text × Text → Prop
  | false, (skipped, rest) => Trivia inBrackets rest skipped
  | true, (skipped, rest) => ∃ c t, skipped = c ++ t ∧ newline ∉ c ∧
      (∀ u ∈ (t ++ rest).head?, u = newline) ∧ Trivia inBrackets rest t

theorem splitTriviaSkipped (inBrackets comment : Bool) (t : Text) :
    Skipped (inBrackets = true) comment (splitTrivia inBrackets comment t) := by
  fun_induction splitTrivia inBrackets comment t with
  | case1 comment =>
    cases comment with
    | true => exact ⟨[], [], rfl, List.not_mem_nil, by simp, .nothing⟩
    | false => exact .nothing
  | case2 rest inside ih =>
    exact ⟨[], _, rfl, List.not_mem_nil, by simp, .more (.newline inside) ih⟩
  | case3 rest outside => exact ⟨[], [], rfl, List.not_mem_nil, by simp, .nothing⟩
  | case4 u rest inLine ih =>
    obtain ⟨c, t, same, line, stops, others⟩ := ih
    refine ⟨u :: c, t, congrArg (u :: ·) same, ?_, stops, others⟩
    exact List.not_mem_cons_of_ne_of_not_mem (Ne.symm inLine) line
  | case5 u rest blank ih => exact .more (.blank blank) ih
  | case6 rest _ ih =>
    obtain ⟨c, t, same, line, stops, others⟩ := ih
    have whole := Trivia.more (.comment line stops) others
    rw [List.cons_append, ← same] at whole
    exact whole
  | case7 rest inside _ _ ih => exact .more (.newline inside) ih
  | case8 => exact .nothing
  | case9 => exact .nothing
  | case10 rest _ _ _ ih => exact .more .continued ih
  | case11 => exact .nothing
  | case12 => exact .nothing

theorem splitTriviaNewline (comment : Bool) (t : Text) :
    (splitTrivia true comment t).2.head? ≠ some newline := by
  generalize inside : true = inBrackets
  fun_induction splitTrivia inBrackets comment t <;> simp_all [splitTrivia.keep]

end Lexer

namespace TokenKind

def Ordinary (kind : TokenKind) : Prop := kind ≠ .string ∧ kind ≠ .newline ∧ kind ≠ .endOfInput

theorem ofWordOrdinary (word : Text) : (ofWord word).Ordinary := by
  unfold ofWord Ordinary
  repeat' split
  all_goals decide

theorem ofUnitOrdinary {u : CodeUnit} {kind : TokenKind} (found : ofUnit u = some kind) :
    kind.Ordinary := by
  unfold ofUnit at found
  repeat' split at found
  all_goals first | (cases found; unfold Ordinary; decide) | cases found

end TokenKind

namespace Lexer
open CodeUnit

inductive Lexeme.Shaped (u : CodeUnit) : Lexeme → Prop
  | line (ends : u = newline) (written rest : Text) : Shaped u ⟨.newline, written, written, rest⟩
  | string {body value : Text} (isMark : Quoted.IsMark u) (decodes : Quoted.Decodes u body value)
      (rest : Text) : Shaped u ⟨.string, value, u :: (body ++ [u]), rest⟩
  | ordinary {kind : TokenKind} (ordinary : kind.Ordinary) (written rest : Text) :
      Shaped u ⟨kind, written, written, rest⟩

namespace Lexeme.Shaped

variable {u : CodeUnit} {l : Lexeme}

theorem noEnd (shaped : l.Shaped u) : l.kind ≠ .endOfInput := by
  cases shaped with
  | line => exact nofun
  | string => exact nofun
  | ordinary ordinary => exact ordinary.2.2

theorem endsLine (shaped : l.Shaped u) (isLine : l.kind = .newline) : u = newline := by
  cases shaped with
  | line ends => exact ends
  | string => cases isLine
  | ordinary ordinary => exact absurd isLine ordinary.2.1

theorem verbatim (shaped : l.Shaped u) (other : l.kind ≠ .string) : l.value = l.written := by
  cases shaped with
  | line => rfl
  | string => exact absurd rfl other
  | ordinary => rfl

theorem decoded (shaped : l.Shaped u) (isString : l.kind = .string) :
    ∃ mark body, Quoted.IsMark mark ∧ l.written = mark :: (body ++ [mark]) ∧
      ∀ value, Quoted.Decodes mark body value ↔ value = l.value := by
  cases shaped with
  | line => cases isString
  | @string body _ isMark decodes =>
    refine ⟨u, body, isMark, rfl, fun value => ⟨fun other => other.unique isMark decodes, ?_⟩⟩
    rintro rfl
    exact decodes
  | ordinary ordinary => exact absurd isString ordinary.1

end Lexeme.Shaped

theorem lexemeShaped {u : CodeUnit} {rest : Text} {l : Lexeme} (found : lexemeAt u rest = .ok l) :
    l.Shaped u := by
  unfold lexemeAt at found
  split at found
  · rename_i ends
    cases found
    exact .line ends [u] rest
  split at found
  · rename_i isMark
    unfold stringAt at found
    split at found
    · rename_i f back
      obtain ⟨body, written, decodes⟩ := Quoted.decodesOfRead back
      cases found
      rw [written]
      exact .string isMark decodes f.rest
    · cases found
    · cases found
  split at found
  · cases found
    exact .ordinary (by unfold TokenKind.Ordinary; decide) _ _
  split at found
  · cases found
    exact .ordinary (TokenKind.ofWordOrdinary _) _ _
  split at found
  · rename_i kind single
    cases found
    exact .ordinary (TokenKind.ofUnitOrdinary single) [u] rest
  · cases found

def depthBehind (depth : Nat) (ts : List Token) : Nat :=
  ts.foldl (fun depth t => t.kind.depthAfter depth) depth

def stopBehind (start : Nat) (ts : List Token) : Nat :=
  ts.foldl (fun _ t => t.span.stop.offset) start

/-- A token that the text behind an offset gives in that many brackets. The text in front of it is
trivia, and newlines are part of them just where they are no tokens. -/
structure Fits (source : Text) (depth start : Nat) (t : Token) : Prop where
  trivia : Trivia (0 < depth) (source.drop t.span.start.offset)
    (source.between start t.span.start.offset)
  nonempty : t.kind ≠ .endOfInput → t.span.start.offset < t.span.stop.offset
  line : t.kind = .newline → depth = 0
  verbatim : t.kind ≠ .string → t.value = t.span.slice source
  decoded : t.kind = .string → ∃ mark body, Quoted.IsMark mark ∧
    t.span.slice source = mark :: (body ++ [mark]) ∧
    ∀ value, Quoted.Decodes mark body value ↔ value = t.value

structure IsEnd (source : Text) (t : Token) : Prop where
  kind : t.kind = .endOfInput
  start : t.span.start.offset = source.length
  stop : t.span.stop.offset = source.length

structure Tiled (source : Text) (depth start : Nat) (ts : List Token) : Prop where
  each : ∀ before t after, ts = before ++ t :: after →
    Fits source (depthBehind depth before) (stopBehind start before) t
  behind : ∀ t ∈ ts, start ≤ t.span.start.offset
  ordered : ts.Pairwise fun t u => t.span.stop.offset ≤ u.span.start.offset
  last : ∃ before t, ts = before ++ [t] ∧ IsEnd source t ∧ ∀ u ∈ before, u.kind ≠ .endOfInput

theorem Tiled.cons {source : Text} {depth start : Nat} {t : Token} {ts : List Token}
    (first : Fits source depth start t) (inside : t.kind ≠ .endOfInput)
    (begins : start ≤ t.span.start.offset)
    (others : Tiled source (t.kind.depthAfter depth) t.span.stop.offset ts) :
    Tiled source depth start (t :: ts) := by
  have covers := first.nonempty inside
  refine ⟨fun before u after same => ?_, fun u member => ?_, ?_, ?_⟩
  · cases before with
    | nil =>
      cases same
      exact first
    | cons v before =>
      cases same
      exact others.each before u after rfl
  · rcases List.mem_cons.mp member with rfl | member
    · exact begins
    · have later := others.behind u member
      omega
  · exact .cons others.behind others.ordered
  · obtain ⟨before, last, rfl, isEnd, unlike⟩ := others.last
    refine ⟨t :: before, last, rfl, isEnd, fun u member => ?_⟩
    rcases List.mem_cons.mp member with rfl | member
    · exact inside
    · exact unlike u member

theorem Tiled.only {source : Text} {depth start : Nat} {t : Token} (fits : Fits source depth start t)
    (isEnd : IsEnd source t) (begins : start ≤ source.length) : Tiled source depth start [t] := by
  refine ⟨fun before u after same => ?_, fun u member => ?_, List.pairwise_singleton _ t,
    [], t, rfl, isEnd, fun u member => nomatch member⟩
  · cases before with
    | nil =>
      cases same
      exact fits
    | cons v before => simp at same
  · cases List.mem_singleton.mp member
    rw [isEnd.start]
    exact begins

theorem splitFits {source front t skipped rest : Text} {depth : Nat}
    (whole : source = front ++ t) (split : splitTrivia (depth != 0) false t = (skipped, rest)) :
    source = front ++ (skipped ++ rest) ∧
      Trivia (0 < depth) (source.drop (front ++ skipped).length)
        (source.between front.length (front ++ skipped).length) := by
  have parts := splitTriviaAppend (depth != 0) false t
  have trivia := splitTriviaSkipped (depth != 0) false t
  have open_ : ((depth != 0) = true) = (0 < depth) := by simp [Nat.pos_iff_ne_zero]
  rw [split] at parts trivia
  rw [open_] at trivia
  rw [← parts] at whole
  refine ⟨whole, ?_⟩
  rw [Text.betweenSplit whole, whole, ← List.append_assoc, List.drop_left]
  exact trivia

theorem endFits {source front t skipped : Text} {depth : Nat} {here : Location}
    (whole : source = front ++ t) (stands : here.offset = front.length)
    (split : splitTrivia (depth != 0) false t = (skipped, [])) :
    Tiled source depth front.length
      [⟨.endOfInput, [], ⟨here.after skipped, here.after skipped⟩⟩] := by
  obtain ⟨parts, trivia⟩ := splitFits whole split
  have place := Location.offsetBehind stands skipped
  have size : (here.after skipped).offset = source.length := by
    rw [place, parts, List.append_nil]
  refine .only ⟨?_, fun inside => absurd rfl inside, nofun, fun _ => ?_, nofun⟩ ⟨rfl, size, size⟩ ?_
  · rw [place]
    exact trivia
  · simp [Span.slice, Text.between, List.drop_eq_nil_of_le]
  · rw [whole, List.length_append]
    omega

theorem lexemeFits {source front t skipped rest : Text} {depth : Nat} {here : Location}
    {u : CodeUnit} {l : Lexeme} (whole : source = front ++ t) (stands : here.offset = front.length)
    (split : splitTrivia (depth != 0) false t = (skipped, u :: rest))
    (found : lexemeAt u rest = .ok l) :
    Fits source depth front.length
      ⟨l.kind, l.value, ⟨here.after skipped, (here.after skipped).after l.written⟩⟩ := by
  obtain ⟨parts, trivia⟩ := splitFits whole split
  have start := Location.offsetBehind stands skipped
  have stop := Location.offsetBehind start l.written
  rw [← lexemeAppend found, ← List.append_assoc] at parts
  have slice : source.between (here.after skipped).offset
      ((here.after skipped).after l.written).offset = l.written := by
    rw [start, stop, Text.betweenSplit parts]
  have shaped := lexemeShaped found
  refine ⟨?_, fun _ => ?_, fun isLine => ?_, fun other => ?_, fun isString => ?_⟩
  · rw [start]
    exact trivia
  · have size := List.length_pos_iff.mpr (lexemeNonempty found)
    exact Nat.lt_of_lt_of_eq (Nat.lt_add_of_pos_right size) (Location.offsetAfter _ _).symm
  · -- Inside brackets the newline would have been trivia.
    apply Nat.eq_zero_of_not_pos
    intro inside
    have left := splitTriviaNewline false t
    rw [bne_iff_ne.mpr (Nat.ne_of_gt inside)] at split
    rw [split, shaped.endsLine isLine] at left
    exact left rfl
  · rw [Span.slice, slice]
    exact shaped.verbatim other
  · rw [Span.slice, slice]
    exact shaped.decoded isString

theorem tokensFromTiled {source front t : Text} {depth : Nat} {here : Location} {ts : List Token}
    (whole : source = front ++ t) (stands : here.offset = front.length)
    (ok : tokensFrom depth here t = .ok ts) : Tiled source depth front.length ts := by
  fun_induction tokensFrom depth here t generalizing front ts with
  | case1 depth here t skipped split =>
    cases ok
    exact endFits whole stands split
  | case2 => cases ok
  | case3 depth here t skipped u rest split _ l found _ _ tokens =>
    rename_i others ih
    cases ok
    have first := lexemeFits whole stands split found
    have parts := (splitFits whole split).1
    have begins := Location.offsetBehind stands skipped
    have ends := Location.offsetBehind begins l.written
    rw [← lexemeAppend found, ← List.append_assoc, ← List.append_assoc] at parts
    have behind := ih parts ends others
    rw [← ends] at behind
    refine .cons first (lexemeShaped found).noEnd ?_ behind
    rw [begins, List.length_append]
    exact Nat.le_add_right _ _
  | case4 => cases ok

theorem endOfTokens {source : Text} {ts : List Token} {last : Token}
    (lexed : tokenize source = .ok (ts ++ [last])) :
    IsEnd source last ∧ ∀ t ∈ ts, t.kind ≠ .endOfInput := by
  have whole : source = [] ++ source := rfl
  obtain ⟨before, t, same, isEnd, inner⟩ := (tokensFromTiled whole rfl lexed).last
  obtain ⟨rfl, lasts⟩ := List.append_inj' same rfl
  cases lasts
  exact ⟨isEnd, inner⟩

/- Tokens and trivia tile every source that has tokens, and whatever place a token or the fault of
the lexer names lies in the source. -/
theorem tokenizeTiles (source : Text) :
    match tokenize source with
    | .ok ts => Tiled source 0 0 ts ∧ ∀ t ∈ ts, t.LiesIn source
    | .error f => f.IsAt source .lexer := by
  have placed := tokenizePlaced source
  cases result : tokenize source with
  | error f =>
    rw [result] at placed
    exact placed
  | ok ts =>
    rw [result] at placed
    have whole : source = [] ++ source := rfl
    exact ⟨tokensFromTiled whole rfl result, placed.1⟩

example : (tokenize (text "[1,#\n2]\n")).map (fun ts => ts.map Token.kind) =
    .ok [.openBracket, .number, .comma, .number, .closeBracket, .newline, .endOfInput] := by
  cbv

end Lexer

end SeqScript
