import SeqScript.Proofs.Location
import SeqScript.Proofs.Number.Longest
import SeqScript.Proofs.Token.Local

/-! Literals as tokens, at any place of a source. A text that was quoted is one string token, and what
begins with a digit gives the longest numeral; both end where they end, whatever the source goes on
with. -/
namespace SeqScript

namespace Quoted
open CodeUnit

theorem writtenInLine (t : Text) : newline ∉ write t := by
  have plain : newline ≠ quote := by decide
  rw [write, List.cons_append]
  refine List.not_mem_cons_of_ne_of_not_mem plain fun member => ?_
  rcases List.mem_append.mp member with inside | last
  · exact (decodesWritten t).inLine inside
  · exact plain (List.mem_singleton.mp last)

end Quoted

namespace Lexer
open CodeUnit

theorem tokensFromHead {u : CodeUnit} {rest : Text} {l : Lexeme} (solid : Solid u)
    (found : lexemeAt u rest = .ok l) (depth : Nat) (here : Location) :
    tokensFrom depth here (u :: rest) =
      (tokensFrom (l.kind.depthAfter depth) (here.after l.written) l.rest).map
        (⟨l.kind, l.value, ⟨here, here.after l.written⟩⟩ :: ·) :=
  tokensFromLexeme (splitTriviaSolid solid (depth != 0) rest) found here

/- A text that is quoted, in front of any text and at any place: the string that is read is the text,
and it ends in the same line, behind the quoted form. -/
theorem quotedIsOneToken (t rest : Text) (depth : Nat) (here : Location) :
    let body := t.codePoints.flatMap Quoted.escapePoint
    let written := quote :: body ++ [quote]
    let stop : Location := ⟨here.line, here.column + written.length, here.offset + written.length⟩
    Quoted.write t = written ∧
      lexemeAt quote (body ++ quote :: rest) = .ok ⟨.string, t, written, rest⟩ ∧
      tokensFrom depth here (written ++ rest) =
        (tokensFrom depth stop rest).map (⟨.string, t, ⟨here, stop⟩⟩ :: ·) := by
  intro body written stop
  have points : Quoted.write t = written := Quoted.writePoints t
  have units : body = t.flatMap Quoted.escape :=
    (List.append_cancel_right (List.cons.inj points).2).symm
  have found : lexemeAt quote (body ++ quote :: rest) = .ok ⟨.string, t, written, rest⟩ := by
    rw [units, lexemeWritten, points]
  have ends : here.after written = stop :=
    Location.afterInLine (points ▸ Quoted.writtenInLine t) here
  have whole : written ++ rest = quote :: (body ++ quote :: rest) := by simp [written]
  refine ⟨points, found, ?_⟩
  rw [whole, tokensFromHead solidQuote found, ends]
  rfl

/- What begins with a digit is read as the longest numeral that stands there. It ends in a digit, so
a point or an exponent mark that no digit completes is left to the next token. -/
theorem numeralIsOneToken {u : CodeUnit} (digit : u.isDigit = true) (rest : Text) :
    ∃ taken left, Numeral.Longest Numeral.pattern.matches' (u :: rest) taken left ∧
      (∃ v, taken.getLast? = some v ∧ v.isDigit = true) ∧
      lexemeAt u rest = .ok ⟨.number, taken, taken, left⟩ ∧
      ∀ depth here, tokensFrom depth here (u :: rest) =
        (tokensFrom depth (here.after taken) left).map
          (⟨.number, taken, ⟨here, here.after taken⟩⟩ :: ·) := by
  have begins : Numeral.beginsWithDigit (u :: rest) = true := digit
  exact ⟨_, _, Numeral.readLongest begins, (Numeral.readShape begins).endsInDigit,
    lexemeDigit digit rest, tokensFromHead (solidDigit digit) (lexemeDigit digit rest)⟩

theorem pointLeftBehind :
    (unit '1').isDigit = true ∧
      Numeral.Longest Numeral.pattern.matches' (text "1.e5") (text "1") (text ".e5") ∧
      lexemeAt (unit '1') (text ".e5") = .ok ⟨.number, text "1", text "1", text ".e5"⟩ := by
  have digit : (unit '1').isDigit = true := by decide
  have found : lexemeAt (unit '1') (text ".e5") = .ok ⟨.number, text "1", text "1", text ".e5"⟩ := rfl
  obtain ⟨taken, left, longest, _, same, _⟩ := numeralIsOneToken digit (text ".e5")
  cases found.symm.trans same
  exact ⟨digit, longest, found⟩

end Lexer

end SeqScript
