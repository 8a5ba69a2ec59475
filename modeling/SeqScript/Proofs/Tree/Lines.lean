import SeqScript.Proofs.Token.Local
import SeqScript.Proofs.Tree.Phrases
import SeqScript.Proofs.Tree.Reread

/-! Scripts one behind the other. Where a text has its tokens and no bracket is open behind them, a
newline behind the text is a token, whatever trivia the text ends with, and what follows is read as if
it stood alone. -/
namespace SeqScript
open CodeUnit Lexer

namespace Lexer

def newlineAt (place : Location) : Token := ⟨.newline, [newline], ⟨place, place.next newline⟩⟩

theorem tokensOfLines {depth : Nat} {here : Location} {t : Text} {ts : List Token} {last : Token}
    (lexed : tokensFrom depth here t = .ok (ts ++ [last])) (ends : last.kind = .endOfInput)
    (closed : depthBehind depth ts = 0) (rest : Text) :
    tokensFrom depth here (t ++ newline :: rest) =
      (tokensFrom 0 ((here.after t).next newline) rest).map
        (ts ++ newlineAt (here.after t) :: ·) := by
  fun_induction tokensFrom depth here t generalizing ts with
  | case1 depth here t skipped split =>
    obtain ⟨rfl, _⟩ := List.append_inj' (Except.ok.inj lexed : [] ++ [_] = ts ++ [last]) rfl
    cases closed
    have line : lexemeAt newline rest = .ok ⟨.newline, [newline], [newline], rest⟩ := rfl
    have trivia : splitTrivia (0 != 0) false (t ++ newline :: rest) = (t, newline :: rest) :=
      triviaBeforeLine split rest
    exact tokensFromLexeme trivia line here
  | case2 => cases lexed
  | case3 depth here t skipped u left split _ l found _ _ tokens =>
    rename_i others ih
    cases ts with
    | nil =>
      cases lexed
      exact absurd ends (lexemeShaped found).noEnd
    | cons first ts =>
      obtain ⟨rfl, rfl⟩ := List.cons.inj (Except.ok.inj lexed)
      have parts := splitTriviaAppend (depth != 0) false t
      rw [split] at parts
      have place : here.after t = ((here.after skipped).after l.written).after l.rest := by
        rw [← parts, Location.afterAppend, ← lexemeAppend found, Location.afterAppend]
      have trivia := triviaBefore split (lexemeSolid found) (newline :: rest)
      have lexeme := lexemeBefore found (Text.breaksNewline rest)
      rw [tokensFromLexeme trivia lexeme, Lexeme.before, ih others closed, place]
      cases tokensFrom 0 _ rest <;> rfl
  | case4 => cases lexed

end Lexer

namespace Parser

theorem DerivesLines.behindNewlines {ns ts : List Token} {ss : List Statement} (blank : Newlines ns)
    (lines : DerivesLines ts ss) : DerivesLines (ns ++ ts) ss := by
  have both {ms : List Token} (blank' : Newlines ms) : Newlines (ns ++ ms) := fun t member =>
    (List.mem_append.mp member).elim (blank t) (blank' t)
  cases lines with
  | none blank' => exact .none (both blank')
  | last before statement =>
    rw [← List.append_assoc]
    exact .last (both before) statement
  | more before statement separator others =>
    rw [← List.append_assoc, ← List.append_assoc]
    exact .more (both before) statement separator others

theorem DerivesLines.append {ts us : List Token} {n : Token} {ss ss' : List Statement}
    (first : DerivesLines ts ss) (separator : n.kind = .newline) (second : DerivesLines us ss') :
    DerivesLines (ts ++ n :: us) (ss ++ ss') := by
  induction first with
  | none blank =>
    have line : Newlines [n] := fun t member => List.mem_singleton.mp member ▸ separator
    exact (second.behindNewlines line).behindNewlines blank
  | last before statement => exact .more before statement separator second
  | more before statement separator' others ih =>
    rw [List.append_assoc, List.cons_append]
    exact .more before statement separator' ih

/- Two scripts with a newline between them are a script. Its statements are those of the first where
they stand there, and then those of the second but for their places. -/
theorem scriptOfLines {s₁ s₂ : Text} {a b : Script} (first : script s₁ = .ok a)
    (second : script s₂ = .ok b) :
    ∃ c more, script (s₁ ++ newline :: s₂) = .ok c ∧ c.statements = a.statements ++ more ∧
      more.map Statement.bare = b.statements.map Statement.bare := by
  obtain ⟨ts, last, lexed, lines⟩ := scriptDerived first
  obtain ⟨us, last', lexed', lines'⟩ := scriptDerived second
  have split := tokensOfLines lexed (endOfTokens lexed).1.kind (lines.balanced.level 0) s₂
  obtain ⟨vs, moved, alike⟩ := tokensElsewhere lexed' ((Location.first.after s₁).next newline)
  rw [List.map_append] at alike
  obtain ⟨ws, ends, rfl, same, back⟩ := List.map_eq_append_iff.mp alike
  obtain ⟨stop, rfl, stops⟩ := List.map_eq_singleton_iff.mp back
  obtain ⟨more, derives, equal⟩ := lines'.reads same
  rw [moved] at split
  have separator : (newlineAt (Location.first.after s₁)).kind = .newline := rfl
  have whole := scriptAccepted (lines.append separator derives)
    ((kindOfLexical stops).1.trans (endOfTokens lexed').1.kind)
  rw [List.append_assoc, List.cons_append] at whole
  exact ⟨_, more, (scriptOfTokenized split).trans whole, rfl, equal⟩

theorem listThenCall :
    ∃ a b c more, script (text "x = [1, # one\n 2] \\\n# and then") = .ok a ∧
      script (text "\n-len(x)[\n0 ] ") = .ok b ∧
      script (text "x = [1, # one\n 2] \\\n# and then" ++ newline :: text "\n-len(x)[\n0 ] ") =
        .ok c ∧
      c.statements = a.statements ++ more ∧
      more.map Statement.bare = b.statements.map Statement.bare := by
  obtain ⟨a, first⟩ := readIfOk (text "x = [1, # one\n 2] \\\n# and then") (by decide +kernel)
  obtain ⟨b, second⟩ := readIfOk (text "\n-len(x)[\n0 ] ") (by decide +kernel)
  obtain ⟨c, more, whole, front, behind⟩ := scriptOfLines first second
  exact ⟨a, b, c, more, first, second, whole, front, behind⟩

end Parser

end SeqScript
