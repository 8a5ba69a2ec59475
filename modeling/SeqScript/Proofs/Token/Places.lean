import SeqScript.Fault.Report
import SeqScript.Proofs.Location
import SeqScript.Proofs.Token.Adjacent

/-! Where tokens and the faults of the lexer stand: inside the source that they were read from. -/
namespace SeqScript

def Fault.IsAt (source : Text) (c : ReportClass) (f : Fault) : Prop :=
  f.cause.reportClass = c ∧ Location.FoundIn source f.location

def Token.LiesIn (source : Text) (t : Token) : Prop :=
  t.span.start.LiesIn source ∧ t.span.stop.LiesIn source

namespace Quoted

theorem behindRefused {value written before sequence : Text} {result : Except Problem Found}
    (refused : behind value written result = .error (.badEscape before sequence)) :
    ∃ inner, result = .error (.badEscape inner sequence) ∧ before = written ++ inner := by
  cases result with
  | ok f => cases refused
  | error p =>
    cases p with
    | unterminated => cases refused
    | badEscape inner s =>
      cases refused
      exact ⟨inner, rfl, rfl⟩

theorem problemInside {mark : CodeUnit} {t before sequence : Text}
    (refused : read mark t = .error (.badEscape before sequence)) : ∃ rest, t = before ++ rest := by
  fun_induction read mark t generalizing before with
  | case1 => cases refused
  | case2 => cases refused
  | case3 => cases refused
  | case4 u =>
    cases refused
    exact ⟨[], rfl⟩
  | case5 e rest v _ _ _ ih =>
    obtain ⟨inner, back, rfl⟩ := behindRefused refused
    obtain ⟨tail, rfl⟩ := ih back
    exact ⟨tail, rfl⟩
  | case6 e rest =>
    cases refused
    exact ⟨e :: rest, rfl⟩
  | case7 u rest _ _ _ ih =>
    obtain ⟨inner, back, rfl⟩ := behindRefused refused
    obtain ⟨tail, rfl⟩ := ih back
    exact ⟨tail, rfl⟩

end Quoted

namespace Lexer

theorem problemInside {u : CodeUnit} {rest : Text} {p : Problem}
    (refused : lexemeAt u rest = .error p) :
    (∃ tail, u :: rest = p.before ++ tail) ∧ p.cause.reportClass = .lexer := by
  unfold lexemeAt at refused
  split at refused
  · cases refused
  · split at refused
    · unfold stringAt at refused
      split at refused
      · cases refused
      · cases refused
        exact ⟨⟨u :: rest, rfl⟩, rfl⟩
      · rename_i back
        cases refused
        obtain ⟨tail, same⟩ := Quoted.problemInside back
        exact ⟨⟨tail, congrArg (u :: ·) same⟩, rfl⟩
    · split at refused
      · cases refused
      · split at refused
        · cases refused
        · split at refused
          · cases refused
          · cases refused
            exact ⟨⟨u :: rest, rfl⟩, rfl⟩

def Placed (source : Text) : Except Fault (List Token) → Prop
  | .ok ts => (∀ t ∈ ts, t.LiesIn source) ∧ ∃ before last, ts = before ++ [last] ∧
      last.kind = .endOfInput
  | .error f => f.IsAt source .lexer

theorem Placed.cons {source : Text} {t : Token} {result : Except Fault (List Token)}
    (first : t.LiesIn source) (others : Placed source result) :
    Placed source (result.map (t :: ·)) := by
  cases result with
  | error f => exact others
  | ok ts =>
    obtain ⟨placed, init, last, rfl, ends⟩ := others
    refine ⟨fun u member => ?_, t :: init, last, rfl, ends⟩
    rcases List.mem_cons.mp member with rfl | member
    · exact first
    · exact placed u member

theorem tokensFromPlaced {source before rest : Text} (whole : source = before ++ rest) (depth : Nat) :
    Placed source (tokensFrom depth (Location.first.after before) rest) := by
  -- By the length of what is left: no lexeme is empty, and trivia are only skipped.
  generalize size : rest.length = n
  induction n using Nat.strongRecOn generalizing before rest depth with
  | ind n ih =>
    have parts := splitTriviaAppend (depth != 0) false rest
    cases split : splitTrivia (depth != 0) false rest with
    | mk skipped left =>
      rw [split] at parts
      have start : source = (before ++ skipped) ++ left := by
        rw [whole, ← parts, List.append_assoc]
      have first := Location.liesIn start
      rw [Location.afterAppend] at first
      cases left with
      | nil =>
        rw [tokensFromEnd split]
        refine ⟨fun t member => ?_, [], _, rfl, rfl⟩
        cases List.mem_singleton.mp member
        exact ⟨first, first⟩
      | cons u left =>
        cases found : lexemeAt u left with
        | error p =>
          obtain ⟨⟨tail, inside⟩, kind⟩ := problemInside found
          rw [inside, ← List.append_assoc] at start
          have place := Location.liesIn start
          rw [Location.afterAppend, Location.afterAppend] at place
          rw [tokensFromProblem split found]
          exact ⟨kind, _, rfl, place⟩
        | ok l =>
          rw [← lexemeAppend found, ← List.append_assoc] at start
          have last := Location.liesIn start
          have shorter := restShorter split found
          have others := ih l.rest.length (size ▸ shorter) start (l.kind.depthAfter depth) rfl
          rw [Location.afterAppend, Location.afterAppend] at last others
          rw [tokensFromLexeme split found]
          exact .cons ⟨first, last⟩ others

theorem tokenizePlaced (source : Text) : Placed source (tokenize source) := by
  have whole : source = [] ++ source := rfl
  exact tokensFromPlaced whole 0

end Lexer

end SeqScript
