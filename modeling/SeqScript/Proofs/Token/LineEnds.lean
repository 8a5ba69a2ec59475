import SeqScript.Proofs.Token.Local
import SeqScript.Proofs.Token.Tiling

/-! Line ends. A carriage return before a newline is a blank where the newline ends a statement, a
comment or a line inside brackets, so the tokens stay what they are. Behind the backslash of a
continued line it is in the way: the lexer then finds a backslash that belongs to nothing. -/
namespace SeqScript
open CodeUnit

def Text.withReturns (t : Text) : Text :=
  t.flatMap fun u => if u = newline then [unit '\r', newline] else [u]

namespace Text

theorem returnsAppend (s t : Text) : (s ++ t).withReturns = s.withReturns ++ t.withReturns :=
  List.flatMap_append

theorem returnsNewline (t : Text) :
    withReturns (newline :: t) = unit '\r' :: newline :: t.withReturns := rfl

theorem returnsCons {u : CodeUnit} (inLine : u ≠ newline) (t : Text) :
    withReturns (u :: t) = u :: t.withReturns := by simp [withReturns, inLine]

theorem returnsInLine {t : Text} (inLine : newline ∉ t) : t.withReturns = t := by
  induction t with
  | nil => rfl
  | cons u t ih =>
    rw [returnsCons (List.ne_of_not_mem_cons inLine).symm, ih (List.not_mem_of_not_mem_cons inLine)]

theorem returnsHead (t : Text) : t.withReturns.head? ≠ some newline := by
  cases t with
  | nil => exact Option.some_ne_none newline |>.symm
  | cons u t =>
    by_cases line : u = newline
    · subst line
      exact fun same => absurd (Option.some.inj same) (by decide)
    · rw [returnsCons line]
      exact fun same => line (Option.some.inj same)

theorem lineLength {s rest behind : Text} (line : Text) (same : s ++ rest = line ++ behind)
    (inLine : newline ∉ s) (ends : ∀ u ∈ behind.head?, u = newline) : s.length ≤ line.length := by
  cases behind with
  | nil =>
    have size := congrArg List.length same
    simp only [List.length_append, List.length_nil] at size
    omega
  | cons u behind =>
    cases ends u rfl
    apply Nat.le_of_not_lt
    intro longer
    have whole : (line ++ [newline]) ++ behind = s ++ rest := by
      rw [same, List.append_assoc]
      rfl
    have inside : line ++ [newline] <+: s := List.prefix_of_prefix_length_le ⟨behind, whole⟩
      (List.prefix_append s rest) (by simp; omega)
    exact inLine (inside.subset (by simp))

theorem splitLine (t : Text) : ∃ line behind : Text, t = line ++ behind ∧ newline ∉ line ∧
    ∀ u ∈ behind.head?, u = newline := by
  induction t with
  | nil => exact ⟨[], [], rfl, List.not_mem_nil, fun u none => by cases none⟩
  | cons u t ih =>
    by_cases ends : u = newline
    · refine ⟨[], u :: t, rfl, List.not_mem_nil, fun v head => ?_⟩
      cases Option.some.inj head
      exact ends
    · obtain ⟨line, behind, rfl, inLine, stops⟩ := ih
      exact ⟨u :: line, behind, rfl, List.not_mem_cons_of_ne_of_not_mem (Ne.symm ends) inLine, stops⟩

end Text

namespace Lexer
open Text

def joins : Bool → Text → Bool
  | _, [] => false
  | true, u :: t => joins (u != newline) t
  | false, u :: t => u == backslash || joins (u == unit '#') t

def joinsLines (source : Text) (start : Nat) : List Token → Bool
  | [] => false
  | t :: ts =>
    joins false (source.between start t.span.start.offset) || joinsLines source t.span.stop.offset ts

theorem joinsLine (comment : Bool) (t : Text) : joins comment (newline :: t) = joins false t := by
  cases comment <;> rfl

theorem joinsComment {u : CodeUnit} (inLine : u ≠ newline) (t : Text) :
    joins true (u :: t) = joins true t := by
  rw [joins, bne_iff_ne.mpr inLine]

theorem joinsOpened (t : Text) : joins false (unit '#' :: t) = joins true t := rfl

theorem joinsBlank {u : CodeUnit} (blank : isBlank u = true) (t : Text) :
    u ≠ newline ∧ joins false (u :: t) = joins false t := by
  have others : u ≠ newline ∧ u ≠ backslash ∧ u ≠ unit '#' := by
    refine ⟨?_, ?_, ?_⟩ <;> rintro rfl <;> cases blank
  obtain ⟨line, slash, opens⟩ := others
  exact ⟨line, by rw [joins, beq_false_of_ne slash, beq_false_of_ne opens, Bool.false_or]⟩

variable {inBrackets comment opened : Bool} {t skipped rest : Text}

theorem skipsReturn (inBrackets comment : Bool) : Skips inBrackets comment [unit '\r'] comment := by
  cases comment with
  | true => exact .comment (by decide) .nothing
  | false => exact .blank rfl .nothing

theorem Skips.withReturns (skips : Skips inBrackets comment skipped opened)
    (apart : joins comment skipped = false) :
    Skips inBrackets comment (Text.withReturns skipped) opened := by
  induction skips with
  | nothing => exact .nothing
  | @blank u t _ blank _ ih =>
    obtain ⟨line, same⟩ := joinsBlank blank t
    rw [same] at apart
    rw [returnsCons line]
    exact .blank blank (ih apart)
  | @opened t _ _ ih =>
    rw [joinsOpened] at apart
    rw [returnsCons (by decide)]
    exact .opened (ih apart)
  | @comment u t _ inLine _ ih =>
    rw [joinsComment inLine] at apart
    rw [returnsCons inLine]
    exact .comment inLine (ih apart)
  | @line before t _ inside _ ih =>
    rw [joinsLine] at apart
    exact (skipsReturn _ before).append (.line inside (ih apart))
  | continued => cases apart

theorem Skips.toJoin (skips : Skips inBrackets comment skipped opened)
    (joined : joins comment skipped = true) :
    ∃ front back : Text, skipped = front ++ backslash :: newline :: back ∧
      Skips inBrackets comment front.withReturns false := by
  induction skips with
  | @nothing comment => cases comment <;> cases joined
  | @blank u t _ blank _ ih =>
    obtain ⟨line, same⟩ := joinsBlank blank t
    rw [same] at joined
    obtain ⟨front, back, rfl, skips⟩ := ih joined
    exact ⟨u :: front, back, rfl, by rw [returnsCons line]; exact .blank blank skips⟩
  | @opened t _ _ ih =>
    rw [joinsOpened] at joined
    obtain ⟨front, back, rfl, skips⟩ := ih joined
    exact ⟨unit '#' :: front, back, rfl, by rw [returnsCons (by decide)]; exact .opened skips⟩
  | @comment u t _ inLine _ ih =>
    rw [joinsComment inLine] at joined
    obtain ⟨front, back, rfl, skips⟩ := ih joined
    exact ⟨u :: front, back, rfl, by rw [returnsCons inLine]; exact .comment inLine skips⟩
  | @line before t _ inside _ ih =>
    rw [joinsLine] at joined
    obtain ⟨front, back, rfl, skips⟩ := ih joined
    exact ⟨newline :: front, back, rfl, (skipsReturn _ before).append (.line inside skips)⟩
  | @continued t _ others ih => exact ⟨[], t, rfl, .nothing⟩

theorem triviaReturnsEnd (split : splitTrivia inBrackets comment t = (skipped, []))
    (apart : joins comment skipped = false) :
    splitTrivia inBrackets comment t.withReturns = (t.withReturns, []) := by
  have parts := splitTriviaAppend inBrackets comment t
  obtain ⟨opened, skips, stops⟩ := skipsSplit inBrackets comment t
  rw [split] at parts skips stops
  cases parts
  have ends := splitSkipped (skips.withReturns apart) stops
  rw [List.append_nil] at ends ⊢
  exact ends

theorem triviaReturns {u : CodeUnit} (split : splitTrivia inBrackets comment t = (skipped, u :: rest))
    (apart : joins comment skipped = false) :
    ∃ returned, splitTrivia inBrackets comment t.withReturns = (returned, u :: rest.withReturns) := by
  have parts := splitTriviaAppend inBrackets comment t
  obtain ⟨opened, skips, stops⟩ := skipsSplit inBrackets comment t
  rw [split] at parts skips stops
  have before := skips.withReturns apart
  rw [← parts, returnsAppend]
  rcases stops with ⟨rfl, outside⟩ | ⟨outside, inLine, blank, opens, _⟩
  · have stops : Stops inBrackets opened (newline :: rest.withReturns) := .inl ⟨rfl, outside⟩
    rw [returnsNewline, List.append_cons]
    exact ⟨_, splitSkipped (before.append (skipsReturn _ _)) stops⟩
  · have stops : Stops inBrackets opened (u :: rest.withReturns) :=
      .inr ⟨outside, inLine, blank, opens, fun _ => returnsHead rest⟩
    rw [returnsCons inLine]
    exact ⟨_, splitSkipped before stops⟩

theorem triviaJoined (split : splitTrivia inBrackets comment t = (skipped, rest))
    (joined : joins comment skipped = true) :
    ∃ front back : Text, t = front ++ backslash :: newline :: back ∧
      splitTrivia inBrackets comment t.withReturns =
        (front.withReturns, backslash :: unit '\r' :: newline :: back.withReturns) := by
  have parts := splitTriviaAppend inBrackets comment t
  obtain ⟨opened, skips, stops⟩ := skipsSplit inBrackets comment t
  rw [split] at parts skips
  obtain ⟨front, back, rfl, before⟩ := skips.toJoin joined
  have apart : unit '\r' ≠ newline := by decide
  have stops : Stops inBrackets false
      (backslash :: unit '\r' :: newline :: Text.withReturns (back ++ rest)) :=
    .inr ⟨rfl, by decide, by decide, by decide, fun _ same => apart (Option.some.inj same)⟩
  rw [← parts]
  refine ⟨front, back ++ rest, by simp, ?_⟩
  rw [List.append_assoc, returnsAppend, List.cons_append, returnsCons (by decide)]
  exact splitSkipped before stops

theorem lexemeInLine {u : CodeUnit} {l : Lexeme} (found : lexemeAt u t = .ok l)
    (isString : l.kind = .string) : newline ∉ l.written := by
  obtain ⟨mark, body, isMark, written, decodes⟩ := (lexemeShaped found).decoded isString
  have line := isMark.bounds.1
  rw [written]
  simp [line.symm, ((decodes _).mpr rfl).inLine]

theorem lexemeReturns {u : CodeUnit} {l : Lexeme} (found : lexemeAt u t = .ok l) :
    lexemeAt u t.withReturns = .ok { l with rest := l.rest.withReturns } := by
  by_cases line : u = newline
  · subst line
    cases found
    rfl
  obtain ⟨a, b, rfl, inLine, ends⟩ := splitLine t
  have breaks : Breaks b ∧ Breaks b.withReturns := by
    cases b with
    | nil => exact ⟨breaksNothing, breaksNothing⟩
    | cons v b =>
      cases ends v rfl
      exact ⟨breaksNewline b, breaksCons _ (by decide)⟩
  have inside (isString : l.kind = .string) : l.written.length ≤ a.length + 1 :=
    lineLength (u :: a) (lexemeAppend found) (lexemeInLine found isString) ends
  obtain ⟨r, same, found'⟩ := lexemeExchange found breaks.1 breaks.2 inside
  have parts := lexemeAppend found
  rw [same, ← List.append_assoc, ← List.cons_append] at parts
  have tail : newline ∉ r := fun member => by
    have front : newline ∈ u :: a :=
      List.append_cancel_right parts ▸ List.mem_append_right _ member
    rcases List.mem_cons.mp front with same | member
    · exact line same.symm
    · exact inLine member
  rw [same, returnsAppend, returnsAppend, returnsInLine inLine, returnsInLine tail]
  exact found'

theorem returnsAt (front t : Text) :
    (Location.first.after front.withReturns).after t.withReturns =
      Location.first.after (front ++ t).withReturns := by
  rw [returnsAppend, Location.afterAppend]

/-- What becomes of some tokens behind a text when returns are put in front of all newlines: the same
kinds and values if no line is continued, and a refusal of the first continuation otherwise. -/
structure Returned (source front t : Text) (depth : Nat) (ts : List Token) : Prop where
  apart : joinsLines source front.length ts = false → ∃ us,
    tokensFrom depth (.after .first front.withReturns) t.withReturns = .ok us ∧
      us.map Token.lexical = ts.map Token.lexical
  joined : joinsLines source front.length ts = true → ∃ before behind : Text,
    source = before ++ backslash :: newline :: behind ∧
      tokensFrom depth (.after .first front.withReturns) t.withReturns =
        .error ⟨.unexpectedCharacter backslash, some (.after .first before.withReturns)⟩

theorem continuationRefused {source front : Text} {depth : Nat} (whole : source = front ++ t)
    (split : splitTrivia (depth != 0) false t = (skipped, rest))
    (joined : joins false skipped = true) : ∃ before behind : Text,
    source = before ++ backslash :: newline :: behind ∧
      tokensFrom depth (.after .first front.withReturns) t.withReturns =
        .error ⟨.unexpectedCharacter backslash, some (.after .first before.withReturns)⟩ := by
  obtain ⟨before, behind, rfl, stopped⟩ := triviaJoined split joined
  have refused (t : Text) : lexemeAt backslash t = .error ⟨[], .unexpectedCharacter backslash⟩ := rfl
  refine ⟨front ++ before, behind, by rw [whole, List.append_assoc], ?_⟩
  rw [tokensFromProblem stopped (refused _), ← returnsAt]
  rfl

theorem placeReturns {front returned : Text} {u : CodeUnit} {l : Lexeme}
    (whole : skipped ++ u :: rest = t) (found : lexemeAt u rest = .ok l)
    (returns : splitTrivia inBrackets comment t.withReturns = (returned, u :: rest.withReturns)) :
    ((Location.first.after front.withReturns).after returned).after l.written =
      Location.first.after (front ++ skipped ++ l.written).withReturns := by
  have parts := splitTriviaAppend inBrackets comment t.withReturns
  rw [returns, ← whole, ← lexemeAppend found, ← lexemeAppend (lexemeReturns found),
    returnsAppend, returnsAppend, ← List.append_assoc, ← List.append_assoc] at parts
  rw [← Location.afterAppend, List.append_cancel_right parts, ← returnsAppend, returnsAt,
    List.append_assoc]

theorem stepReturns {front : Text} {depth : Nat} {u : CodeUnit} {l : Lexeme}
    (split : splitTrivia (depth != 0) false t = (skipped, u :: rest))
    (found : lexemeAt u rest = .ok l) (apart : joins false skipped = false) :
    ∃ first : Token, first.lexical = (l.kind, l.value) ∧
      tokensFrom depth (.after .first front.withReturns) t.withReturns =
        (tokensFrom (l.kind.depthAfter depth)
          (.after .first (front ++ skipped ++ l.written).withReturns) l.rest.withReturns).map
            (first :: ·) := by
  have whole := splitTriviaAppend (depth != 0) false t
  rw [split] at whole
  obtain ⟨returned, returns⟩ := triviaReturns split apart
  have lexed := tokensFromLexeme returns (lexemeReturns found) (.after .first front.withReturns)
  rw [placeReturns whole found returns] at lexed
  exact ⟨_, rfl, lexed⟩

theorem joinsLinesCons {source front : Text} {here : Location} {stop : Nat}
    (whole : source = front ++ (skipped ++ rest)) (stands : here.offset = front.length)
    (first : Token) (begins : first.span.start = here.after skipped)
    (ends : first.span.stop.offset = stop) (ts : List Token) :
    joinsLines source front.length (first :: ts) =
      (joins false skipped || joinsLines source stop ts) := by
  rw [joinsLines, begins, ends, Location.offsetBehind stands, Text.betweenSplit whole]

theorem tokensFromReturned {source front : Text} {depth : Nat} {here : Location} {ts : List Token}
    (whole : source = front ++ t) (stands : here.offset = front.length)
    (ok : tokensFrom depth here t = .ok ts) : Returned source front t depth ts := by
  fun_induction tokensFrom depth here t generalizing front ts with
  | case1 depth here t skipped split =>
    cases ok
    have scan := joinsLinesCons (splitFits whole split).1 stands
      ⟨.endOfInput, [], ⟨here.after skipped, here.after skipped⟩⟩ rfl rfl []
    rw [joinsLines, Bool.or_false] at scan
    refine ⟨fun apart => ?_, fun joined => ?_⟩
    · exact ⟨_, tokensFromEnd (triviaReturnsEnd split (scan.symm.trans apart)) _, rfl⟩
    · exact continuationRefused whole split (scan.symm.trans joined)
  | case2 => cases ok
  | case3 depth here t skipped u rest split _ l found _ _ tokens =>
    rename_i others ih
    cases ok
    have parts := (splitFits whole split).1
    have ends := Location.offsetBehind (Location.offsetBehind stands skipped) l.written
    have scan := joinsLinesCons parts stands
      ⟨l.kind, l.value, ⟨here.after skipped, (here.after skipped).after l.written⟩⟩ rfl ends tokens
    rw [← lexemeAppend found, ← List.append_assoc, ← List.append_assoc] at parts
    have behind := ih parts ends others
    refine ⟨fun apart => ?_, fun joined => ?_⟩
    · obtain ⟨here, later⟩ := Bool.or_eq_false_iff.mp (scan.symm.trans apart)
      obtain ⟨first, same, step⟩ := stepReturns split found here
      obtain ⟨us, lexed, alike⟩ := behind.apart later
      refine ⟨first :: us, by rw [step, lexed]; rfl, ?_⟩
      rw [List.map_cons, List.map_cons, same, alike]
      rfl
    · cases here : joins false skipped with
      | true => exact continuationRefused whole split here
      | false =>
        obtain ⟨first, _, step⟩ := stepReturns split found here
        rw [here, Bool.false_or] at scan
        obtain ⟨before, rest, same, refused⟩ := behind.joined (scan.symm.trans joined)
        exact ⟨before, rest, same, by rw [step, refused]; rfl⟩
  | case4 => cases ok

/- Returns in front of the newlines of a source that tokenizes leave its tokens what they are, unless
a line is continued: behind the backslash a return stands in the way, and the source is refused. -/
theorem tokensOfReturns {source : Text} {ts : List Token} (lexed : tokenize source = .ok ts) :
    (joinsLines source 0 ts = false → ∃ us, tokenize source.withReturns = .ok us ∧
      us.map Token.lexical = ts.map Token.lexical) ∧
    (joinsLines source 0 ts = true → ∃ before behind : Text,
      source = before ++ backslash :: newline :: behind ∧
        tokenize source.withReturns =
          .error ⟨.unexpectedCharacter backslash, some (.after .first before.withReturns)⟩) := by
  have whole : source = [] ++ source := rfl
  have returned := tokensFromReturned whole rfl lexed
  exact ⟨returned.apart, returned.joined⟩

def bracketedTokens : List Token :=
  [⟨.identifier, text "f", ⟨.first, ⟨1, 2, 1⟩⟩⟩, ⟨.openBracket, text "[", ⟨⟨1, 3, 2⟩, ⟨1, 4, 3⟩⟩⟩,
    ⟨.number, text "1", ⟨⟨2, 1, 6⟩, ⟨2, 2, 7⟩⟩⟩, ⟨.closeBracket, text "]", ⟨⟨2, 2, 7⟩, ⟨2, 3, 8⟩⟩⟩,
    ⟨.newline, [newline], ⟨⟨2, 3, 8⟩, ⟨3, 1, 9⟩⟩⟩, ⟨.endOfInput, [], ⟨⟨3, 1, 9⟩, ⟨3, 1, 9⟩⟩⟩]

def continuedTokens : List Token :=
  [⟨.identifier, text "a", ⟨.first, ⟨1, 2, 1⟩⟩⟩, ⟨.identifier, text "b", ⟨⟨2, 2, 5⟩, ⟨2, 3, 6⟩⟩⟩,
    ⟨.endOfInput, [], ⟨⟨2, 3, 6⟩, ⟨2, 3, 6⟩⟩⟩]

theorem bracketedLexes : tokenize (text "f [#\\\n1]\n") = .ok bracketedTokens := by decide +kernel

theorem continuedLexes : tokenize (text "a \\\n b") = .ok continuedTokens := by decide +kernel

theorem returnsInLines :
    (∃ us, tokenize (withReturns (text "f [#\\\n1]\n")) = .ok us ∧
      us.map Token.lexical = bracketedTokens.map Token.lexical) ∧
    ∃ before behind : Text, text "a \\\n b" = before ++ backslash :: newline :: behind ∧
      tokenize (withReturns (text "a \\\n b")) =
        .error ⟨.unexpectedCharacter backslash, some (.after .first before.withReturns)⟩ := by
  have apart : joinsLines (text "f [#\\\n1]\n") 0 bracketedTokens = false := by decide +kernel
  have joined : joinsLines (text "a \\\n b") 0 continuedTokens = true := by decide +kernel
  exact ⟨(tokensOfReturns bracketedLexes).1 apart, (tokensOfReturns continuedLexes).2 joined⟩

theorem continuedLineRefused :
    tokenize (text "a \\\n b") = .ok continuedTokens ∧
    withReturns (text "a \\\n b") = text "a \\\r\n b" ∧
    tokenize (text "a \\\r\n b") = .error ⟨.unexpectedCharacter backslash, some ⟨1, 3, 2⟩⟩ := by
  have same : withReturns (text "a \\\n b") = text "a \\\r\n b" := by decide
  have refused : tokenize (text "a \\\r\n b") =
      .error ⟨.unexpectedCharacter backslash, some ⟨1, 3, 2⟩⟩ := by decide +kernel
  exact ⟨continuedLexes, same, refused⟩

end Lexer

end SeqScript
