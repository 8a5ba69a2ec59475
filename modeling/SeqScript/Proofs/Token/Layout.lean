import SeqScript.Proofs.Token.Tiling
import SeqScript.Proofs.Token.Within

/-! Layout. Blanks at the edge of a token, and newlines where a bracket is open, leave the kinds and the
values of all tokens as they are. The token in front of them ends where it did, for its end does not
depend on what stands behind it and a blank breaks every lexeme; the blanks themselves are trivia. -/
namespace SeqScript
open CodeUnit

namespace Lexer
open Text

variable {u : CodeUnit} {t rest r other inserted : Text} {l : Lexeme} {depth : Nat}

def Layout (depth : Nat) (t : Text) : Prop :=
  ∀ u ∈ t, isBlank u = true ∨ u = newline ∧ 0 < depth

theorem layoutBreaks (layout : Layout depth inserted) (nonempty : inserted ≠ []) (rest : Text) :
    Breaks (inserted ++ rest) := by
  cases inserted with
  | nil => exact absurd rfl nonempty
  | cons u inserted =>
    rcases layout u List.mem_cons_self with blank | ⟨rfl, _⟩
    · simp only [isBlank, Bool.or_eq_true, beq_iff_eq] at blank
      rcases blank with ((rfl | rfl) | rfl) | rfl <;> exact breaksCons _ (by decide)
    · exact breaksNewline _

theorem tokensFromLayout (layout : Layout depth inserted) (here : Location) (rest : Text) :
    tokensFrom depth here (inserted ++ rest) = tokensFrom depth (here.after inserted) rest := by
  induction inserted generalizing here with
  | nil => rfl
  | cons u inserted ih =>
    have others := ih (fun v member => layout v (List.mem_cons_of_mem u member)) (here.next u)
    rw [List.cons_append, Location.afterCons, ← others]
    rcases layout u List.mem_cons_self with blank | ⟨rfl, inside⟩
    · exact tokensFromBlank blank depth here _
    · have inBrackets : (depth != 0) = true := bne_iff_ne.mpr (Nat.ne_of_gt inside)
      refine tokensFromSkipped ?_ here
      rw [inBrackets]
      exact splitTriviaLine false _

theorem Stops.uncommented {inBrackets comment : Bool} (stops : Stops inBrackets comment rest) :
    Stops inBrackets false rest := by
  cases rest with
  | nil => trivial
  | cons u rest => exact stops.imp_right fun others => ⟨rfl, others.2⟩

theorem layoutSkips (comment : Bool) (layout : Layout depth inserted) :
    ∃ opened, Skips (depth != 0) comment inserted opened ∧
      ∀ rest, Stops (depth != 0) comment rest → Stops (depth != 0) opened rest := by
  induction inserted generalizing comment with
  | nil => exact ⟨comment, .nothing, fun rest stops => stops⟩
  | cons u inserted ih =>
    have others := fun v member => layout v (List.mem_cons_of_mem u member)
    rcases layout u List.mem_cons_self with blank | ⟨rfl, inside⟩
    · obtain ⟨opened, skips, stops⟩ := ih comment others
      cases comment with
      | false => exact ⟨opened, .blank blank skips, stops⟩
      | true =>
        have inLine : u ≠ newline := by rintro rfl; cases blank
        exact ⟨opened, .comment inLine skips, stops⟩
    · obtain ⟨opened, skips, stops⟩ := ih false others
      exact ⟨opened, .line (bne_iff_ne.mpr (Nat.ne_of_gt inside)) skips,
        fun rest before => stops rest before.uncommented⟩

theorem triviaLayout {skipped : Text} (split : splitTrivia (depth != 0) false t = (skipped, rest))
    (layout : Layout depth inserted) :
    splitTrivia (depth != 0) false (skipped ++ (inserted ++ rest)) = (skipped ++ inserted, rest) := by
  obtain ⟨comment, skips, stops⟩ := skipsSplit (depth != 0) false t
  rw [split] at skips stops
  obtain ⟨opened, more, stop⟩ := layoutSkips comment layout
  rw [← List.append_assoc]
  exact splitSkipped (skips.append more) (stop rest stops)

def depthAt (p depth : Nat) (ts : List Token) : Nat :=
  depthBehind depth (ts.filter fun t => t.span.stop.offset ≤ p)

theorem depthAtCons {p : Nat} {tok : Token} (ends : tok.span.stop.offset ≤ p) (depth : Nat)
    (ts : List Token) :
    depthAt p depth (tok :: ts) = depthAt p (tok.kind.depthAfter depth) ts := by
  rw [depthAt, List.filter_cons_of_pos (by simpa using ends)]
  rfl

theorem depthBehindEnds {ts : List Token} (ends : ∀ t ∈ ts, t.kind = .endOfInput) :
    depthBehind depth ts = depth := by
  induction ts generalizing depth with
  | nil => rfl
  | cons t ts ih =>
    have same : t.kind.depthAfter depth = depth := by rw [ends t List.mem_cons_self]; rfl
    have others : depthBehind (t.kind.depthAfter depth) ts = t.kind.depthAfter depth :=
      ih fun u member => ends u (List.mem_cons_of_mem t member)
    exact others.trans same

theorem Tiled.forward {source : Text} {start : Nat} {tok : Token} {ts : List Token}
    (tiled : Tiled source depth start ts) (member : tok ∈ ts) :
    tok.span.start.offset ≤ tok.span.stop.offset := by
  obtain ⟨before, last, rfl, isEnd, unlike⟩ := tiled.last
  rcases List.mem_append.mp member with inner | atEnd
  · obtain ⟨front, back, parts⟩ := List.append_of_mem member
    exact ((tiled.each front tok back parts).nonempty (unlike tok inner)).le
  · cases List.mem_singleton.mp atEnd
    exact (isEnd.start.trans isEnd.stop.symm).le

theorem depthAtBefore {source : Text} {start p : Nat} {ts : List Token}
    (tiled : Tiled source depth start ts) (before : ∀ t ∈ ts, p ≤ t.span.start.offset) :
    depthAt p depth ts = depth := by
  refine depthBehindEnds fun t member => ?_
  obtain ⟨inside, ends⟩ := List.mem_filter.mp member
  obtain ⟨front, back, parts⟩ := List.append_of_mem inside
  by_contra inner
  have size := (tiled.each front t back parts).nonempty inner
  have start := before t inside
  have stop : t.span.stop.offset ≤ p := by simpa using ends
  omega

theorem tokensFromChanged {skipped cut : Text} {us : List Token}
    (split : splitTrivia (depth != 0) false t = (skipped, u :: rest))
    (found : lexemeAt u rest = .ok l) (behind : l.rest = r ++ cut) (breaks : other.Breaks)
    (there : Location)
    (others : tokensFrom (l.kind.depthAfter depth) ((there.after skipped).after l.written)
      (r ++ other) = .ok us) :
    tokensFrom depth there (skipped ++ (l.written ++ (r ++ other))) =
      .ok (⟨l.kind, l.value, ⟨there.after skipped, (there.after skipped).after l.written⟩⟩ :: us) := by
  have parts := lexemeAppend found
  obtain ⟨tail, written⟩ := lexemeHead found
  rw [written, behind, List.cons_append, ← List.append_assoc] at parts
  obtain rfl : tail ++ r ++ cut = rest := (List.cons.inj parts).2
  have changed : lexemeAt u (tail ++ r ++ other) = .ok { l with rest := r ++ other } :=
    lexemeBefore (lexemeAlone found behind) breaks
  have trivia := triviaElsewhere split (lexemeSolid found) (tail ++ r ++ other)
  have text : l.written ++ (r ++ other) = u :: (tail ++ r ++ other) := by
    rw [written, List.append_assoc]
    rfl
  have step := tokensFromStep trivia changed others
  rwa [← text] at step

theorem tokensFromTrivia {skipped : Text}
    (split : splitTrivia (depth != 0) false t = (skipped, rest)) (here : Location) :
    tokensFrom depth here t = tokensFrom depth (here.after skipped) rest := by
  obtain ⟨opened, _, stops⟩ := skipsSplit (depth != 0) false t
  rw [split] at stops
  have again := splitStops stops.uncommented
  cases rest with
  | nil => rw [tokensFromEnd split, tokensFromEnd again]; rfl
  | cons u rest =>
    cases found : lexemeAt u rest with
    | error p => rw [tokensFromProblem split found, tokensFromProblem again found]; rfl
    | ok l => rw [tokensFromLexeme split found, tokensFromLexeme again found]; rfl

variable {source front a b : Text} {here : Location} {ts : List Token} {tok : Token}

theorem tokensFromIndented {skipped : Text} (whole : source = front ++ t)
    (stands : here.offset = front.length) (ok : tokensFrom depth here t = .ok ts)
    (split : splitTrivia (depth != 0) false t = (skipped, rest))
    (layout : Layout (depthAt (front ++ skipped).length depth ts) inserted) (there : Location) :
    ∃ us, tokensFrom depth there (skipped ++ (inserted ++ rest)) = .ok us ∧
      us.map Token.lexical = ts.map Token.lexical := by
  have parts := (splitFits whole split).1
  rw [← List.append_assoc] at parts
  rw [tokensFromTrivia split here] at ok
  have tiled := tokensFromTiled parts (Location.offsetBehind stands skipped) ok
  rw [depthAtBefore tiled tiled.behind] at layout
  rw [tokensFromTrivia (triviaLayout split layout) there]
  exact tokensElsewhere ok _

theorem tokensFromMoved (whole : source = front ++ t) (stands : here.offset = front.length)
    (ok : tokensFrom depth here t = .ok ts)
    (layout : Layout (depthAt front.length depth ts) inserted) (there : Location) :
    ∃ us, tokensFrom depth there (inserted ++ t) = .ok us ∧
      us.map Token.lexical = ts.map Token.lexical := by
  have tiled := tokensFromTiled whole stands ok
  rw [depthAtBefore tiled tiled.behind] at layout
  rw [tokensFromLayout layout]
  exact tokensElsewhere ok _

/- Layout at the end of the first token or behind it. The token is found as before, and what is left
has to lex with the layout in it. -/
theorem tokensFromLater {skipped : Text} {first : Token}
    (split : splitTrivia (depth != 0) false t = (skipped, u :: rest))
    (found : lexemeAt u rest = .ok l) (same : first.lexical = (l.kind, l.value))
    (parts : t = a ++ b) (reach : (skipped ++ l.written).length ≤ a.length)
    (breaks : Breaks (inserted ++ b))
    (later : ∀ r there, a = skipped ++ l.written ++ r → l.rest = r ++ b →
      ∃ us, tokensFrom (l.kind.depthAfter depth) there (r ++ (inserted ++ b)) = .ok us ∧
        us.map Token.lexical = ts.map Token.lexical) (there : Location) :
    ∃ us, tokensFrom depth there (a ++ (inserted ++ b)) = .ok us ∧
      us.map Token.lexical = (first :: ts).map Token.lexical := by
  have text := splitTriviaAppend (depth != 0) false t
  rw [split, parts, ← lexemeAppend found, ← List.append_assoc] at text
  obtain ⟨r, rfl⟩ : skipped ++ l.written <+: a :=
    List.prefix_of_prefix_length_le ⟨l.rest, text⟩ (List.prefix_append a b) reach
  rw [List.append_assoc _ r b] at text
  have behind := List.append_cancel_left text
  obtain ⟨us, lexed, alike⟩ := later r _ rfl behind
  have step := tokensFromChanged split found behind breaks there lexed
  have whole : skipped ++ l.written ++ r ++ (inserted ++ b) =
      skipped ++ (l.written ++ (r ++ (inserted ++ b))) := by simp only [List.append_assoc]
  refine ⟨_, whole ▸ step, ?_⟩
  rw [List.map_cons, List.map_cons, alike, same]
  rfl

theorem tokensFromInserted (whole : source = front ++ t) (stands : here.offset = front.length)
    (parts : t = a ++ b) (ok : tokensFrom depth here t = .ok ts) (member : tok ∈ ts)
    (edge : (front ++ a).length = tok.span.start.offset ∨
      (front ++ a).length = tok.span.stop.offset)
    (layout : Layout (depthAt (front ++ a).length depth ts) inserted) (nonempty : inserted ≠ [])
    (there : Location) : ∃ us, tokensFrom depth there (a ++ (inserted ++ b)) = .ok us ∧
      us.map Token.lexical = ts.map Token.lexical := by
  have breaks := layoutBreaks layout nonempty b
  fun_induction tokensFrom depth here t generalizing front a ts there with
  | case1 depth here t skipped split =>
    cases ok
    cases List.mem_singleton.mp member
    have place := Location.offsetBehind stands skipped
    have size : (front ++ a).length = (front ++ skipped).length :=
      edge.elim (·.trans place) (·.trans place)
    have text := splitTriviaAppend (depth != 0) false t
    rw [split, parts] at text
    obtain ⟨rfl, rfl⟩ := List.append_inj text (by simpa using size.symm)
    exact tokensFromIndented whole stands (tokensFromEnd split here) split layout there
  | case2 => cases ok
  | case3 depth here t skipped u rest split _ l found _ _ tokens =>
    rename_i others ih
    cases ok
    have start := Location.offsetBehind stands skipped
    have stop := Location.offsetBehind start l.written
    have text := (splitFits whole split).1
    rw [← lexemeAppend found, ← List.append_assoc, ← List.append_assoc] at text
    have tiled := tokensFromTiled text stop others
    rcases List.mem_cons.mp member with rfl | inner
    · rcases edge with atStart | atStop
      · have text := splitTriviaAppend (depth != 0) false t
        rw [split, parts] at text
        obtain ⟨rfl, rfl⟩ := List.append_inj text (by simpa using (atStart.trans start).symm)
        exact tokensFromIndented whole stands (tokensFromStep split found others) split layout there
      · have ends := atStop.trans stop
        refine tokensFromLater split found rfl parts (by simpa using ends.ge) breaks ?_ there
        rintro r there rfl behind
        obtain rfl : r = [] := by simpa using ends
        obtain rfl : b = l.rest := behind.symm
        rw [depthAtCons atStop.ge, ends] at layout
        exact tokensFromMoved text stop others layout there
    · have ends : (front ++ skipped ++ l.written).length ≤ (front ++ a).length := by
        have begins := tiled.behind tok inner
        rcases edge with atStart | atStop
        · exact begins.trans atStart.ge
        · exact (begins.trans (tiled.forward inner)).trans atStop.ge
      refine tokensFromLater split found rfl parts (by simpa using ends) breaks ?_ there
      rintro r there rfl behind
      rw [depthAtCons (stop.le.trans ends)] at layout
      rw [← List.append_assoc, ← List.append_assoc] at edge layout
      exact ih text stop behind others inner edge layout there
  | case4 => cases ok

/- Layout between tokens is irrelevant. At the start or the end of any token of a source that tokenizes,
blanks may be put, and newlines too where brackets are open: the tokens keep their kinds and values. -/
theorem tokensOfLayout {p : Nat} (lexed : tokenize source = .ok ts) (member : tok ∈ ts)
    (edge : p = tok.span.start.offset ∨ p = tok.span.stop.offset)
    (layout : Layout (depthAt p 0 ts) inserted) :
    ∃ us, tokenize (source.take p ++ inserted ++ source.drop p) = .ok us ∧
      us.map Token.lexical = ts.map Token.lexical := by
  by_cases nonempty : inserted = []
  · subst nonempty
    rw [List.append_nil, List.take_append_drop]
    exact ⟨ts, lexed, rfl⟩
  have whole : source = [] ++ source := rfl
  have placed := tokenizePlaced source
  rw [lexed] at placed
  obtain ⟨starts, stops⟩ := placed.1 tok member
  have inside : p ≤ source.length := by
    rcases edge with rfl | rfl
    · exact starts.offset
    · exact stops.offset
  have size : (([] : Text) ++ source.take p).length = p := by simpa using inside
  rw [← size] at edge layout
  rw [List.append_assoc]
  exact tokensFromInserted whole rfl (List.take_append_drop p source).symm lexed member edge layout
    nonempty .first

def crowdedTokens : List Token :=
  [⟨.openBracket, text "[", ⟨.first, ⟨1, 2, 1⟩⟩⟩, ⟨.number, text "1", ⟨⟨1, 2, 1⟩, ⟨1, 3, 2⟩⟩⟩,
    ⟨.identifier, text "e", ⟨⟨1, 3, 2⟩, ⟨1, 4, 3⟩⟩⟩, ⟨.comma, text ",", ⟨⟨1, 4, 3⟩, ⟨1, 5, 4⟩⟩⟩,
    ⟨.number, text "2", ⟨⟨2, 1, 7⟩, ⟨2, 2, 8⟩⟩⟩, ⟨.closeBracket, text "]", ⟨⟨2, 2, 8⟩, ⟨2, 3, 9⟩⟩⟩,
    ⟨.endOfInput, [], ⟨⟨2, 3, 9⟩, ⟨2, 3, 9⟩⟩⟩]

theorem crowdedLexes : tokenize (text "[1e,#c\n2]") = .ok crowdedTokens := by decide +kernel

theorem crowdedSpaced : Layout (depthAt 2 0 crowdedTokens) [newline, unit ' '] ∧
    ∃ us, tokenize (text "[1\n e,#c\n2]") = .ok us ∧
      us.map Token.lexical = crowdedTokens.map Token.lexical := by
  have inside : depthAt 2 0 crowdedTokens = 1 := by decide
  have layout : Layout (depthAt 2 0 crowdedTokens) [newline, unit ' '] := by
    intro u member
    simp only [List.mem_cons, List.not_mem_nil, or_false] at member
    rw [inside]
    rcases member with rfl | rfl
    · exact .inr ⟨rfl, Nat.one_pos⟩
    · exact .inl rfl
  have member : ⟨.number, text "1", ⟨⟨1, 2, 1⟩, ⟨1, 3, 2⟩⟩⟩ ∈ crowdedTokens := .tail _ (.head _)
  have same : (text "[1e,#c\n2]").take 2 ++ [newline, unit ' '] ++ (text "[1e,#c\n2]").drop 2 =
      text "[1\n e,#c\n2]" := by decide
  have spaced := tokensOfLayout crowdedLexes member (.inr rfl) layout
  rw [same] at spaced
  exact ⟨layout, spaced⟩

end Lexer

end SeqScript
