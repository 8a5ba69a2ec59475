import SeqScript.Fault.Cause
import SeqScript.Text.Letter

/-!
From source text to tokens. Each step splits the text that is left: first the trivia, which are
blanks, comments, continued lines and, inside brackets, newlines; then one lexeme. Locations are
computed from the text that was split off, so they say where a token stands and nothing else.
-/
namespace SeqScript.Lexer

open CodeUnit

def isBlank (u : CodeUnit) : Bool :=
  u == unit ' ' || u == unit '\t' || u == unit '\r' || u == unit '\x0c'

/- Splits the trivia off the head of a text. The second argument says that a comment is open:
it runs up to its newline. -/
def splitTrivia (inBrackets : Bool) : Bool → Text → Text × Text
  | _, [] => ([], [])
  | true, u :: rest =>
    if u = newline then
      if inBrackets then keep u (splitTrivia inBrackets false rest) else ([], u :: rest)
    else keep u (splitTrivia inBrackets true rest)
  | false, u :: rest =>
    if isBlank u then keep u (splitTrivia inBrackets false rest)
    else if u = unit '#' then keep u (splitTrivia inBrackets true rest)
    else if u = newline then
      if inBrackets then keep u (splitTrivia inBrackets false rest) else ([], u :: rest)
    else if u = backslash then
      match rest with
      | [] => ([], [u])
      | v :: rest =>
        if v = newline then keep u (keep v (splitTrivia inBrackets false rest))
        else ([], u :: v :: rest)
    else ([], u :: rest)
where
  keep (u : CodeUnit) (split : Text × Text) : Text × Text := (u :: split.1, split.2)

theorem splitTriviaAppend (inBrackets comment : Bool) (t : Text) :
    (splitTrivia inBrackets comment t).1 ++ (splitTrivia inBrackets comment t).2 = t := by
  fun_induction splitTrivia inBrackets comment t <;> simp_all [splitTrivia.keep]

structure Lexeme where
  kind : TokenKind
  value : Text
  written : Text
  rest : Text
  deriving DecidableEq, Repr

structure Problem where
  before : Text
  cause : Cause
  deriving DecidableEq, Repr

def stringAt (mark : CodeUnit) (rest : Text) : Except Problem Lexeme :=
  match Quoted.read mark rest with
  | .ok found => .ok ⟨.string, found.value, mark :: found.written, found.rest⟩
  | .error .unterminated => .error ⟨[], .unterminatedString⟩
  | .error (.badEscape before sequence) => .error ⟨mark :: before, .invalidEscape sequence⟩

def lexemeAt (u : CodeUnit) (rest : Text) : Except Problem Lexeme :=
  if u = newline then .ok ⟨.newline, [u], [u], rest⟩
  else if u = quote ∨ u = apostrophe then stringAt u rest
  else if u.isDigit then
    let (numeral, rest) := Numeral.read (u :: rest)
    .ok ⟨.number, numeral.written, numeral.written, rest⟩
  else if u.isNameStart then
    let word := u :: rest.takeWhile isNamePart
    .ok ⟨.ofWord word, word, word, rest.dropWhile isNamePart⟩
  else
    match TokenKind.ofUnit u with
    | some kind => .ok ⟨kind, [u], [u], rest⟩
    | none => .error ⟨[], .unexpectedCharacter u⟩

theorem lexemeAppend {u : CodeUnit} {rest : Text} {l : Lexeme} (h : lexemeAt u rest = .ok l) :
    l.written ++ l.rest = u :: rest := by
  unfold lexemeAt at h
  split at h
  · cases h; rfl
  · split at h
    · unfold stringAt at h
      split at h
      · rename_i found read
        cases h
        simp [Quoted.readAppend read]
      · cases h
      · cases h
    · split at h
      · cases h
        exact Numeral.readAppend _
      · split at h
        · cases h
          simp [List.takeWhile_append_dropWhile]
        · split at h
          · cases h; rfl
          · cases h

theorem numeralNonempty {u : CodeUnit} (digit : u.isDigit = true) (rest : Text) :
    (Numeral.read (u :: rest)).1.written ≠ [] := by
  simp [Numeral.read, Numeral.written, Numeral.splitDigits, digit]

theorem lexemeNonempty {u : CodeUnit} {rest : Text} {l : Lexeme} (h : lexemeAt u rest = .ok l) :
    l.written ≠ [] := by
  unfold lexemeAt at h
  split at h
  · cases h; simp
  · split at h
    · unfold stringAt at h
      split at h
      · cases h; simp
      · cases h
      · cases h
    · split at h
      · rename_i digit
        cases h
        exact numeralNonempty digit rest
      · split at h
        · cases h; simp
        · split at h
          · cases h; simp
          · cases h

theorem restShorter {inBrackets : Bool} {source skipped rest : Text} {u : CodeUnit} {l : Lexeme}
    (trivia : splitTrivia inBrackets false source = (skipped, u :: rest))
    (found : lexemeAt u rest = .ok l) : l.rest.length < source.length := by
  have whole := splitTriviaAppend inBrackets false source
  rw [trivia] at whole
  have size := congrArg List.length (lexemeAppend found)
  have some := List.length_pos_iff.mpr (lexemeNonempty found)
  rw [← whole]
  simp only [List.length_append] at size ⊢
  omega

def tokensFrom (depth : Nat) (here : Location) (source : Text) : Except Fault (List Token) :=
  match trivia : splitTrivia (depth != 0) false source with
  | (skipped, []) =>
    let place := here.after skipped
    .ok [⟨.endOfInput, [], ⟨place, place⟩⟩]
  | (skipped, u :: rest) =>
    let start := here.after skipped
    match found : lexemeAt u rest with
    | .error p => .error ⟨p.cause, some (start.after p.before)⟩
    | .ok l =>
      have _ : l.rest.length < source.length := restShorter trivia found
      let stop := start.after l.written
      match tokensFrom (l.kind.depthAfter depth) stop l.rest with
      | .ok tokens => .ok (⟨l.kind, l.value, ⟨start, stop⟩⟩ :: tokens)
      | .error f => .error f
termination_by source.length

def tokenize (source : Text) : Except Fault (List Token) := tokensFrom 0 .first source

end SeqScript.Lexer
