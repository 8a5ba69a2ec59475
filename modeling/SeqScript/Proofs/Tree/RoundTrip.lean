import SeqScript.Proofs.Tree.Reprint

/-! Printing and parsing. A tree that text can hold is read back from its printed text, up to the
places of its nodes; a tree with an empty slot prints to a text that no lexer accepts. -/
namespace SeqScript
open Lexer Text

namespace Statement

def Spellable : Statement → Prop
  | expression e _ => e.Spellable
  | assignment target value _ => IsName target ∧ value.Spellable

def lexicals : Statement → Except Cause (List Lexical)
  | expression e _ => e.lexicals
  | assignment target value _ =>
    joined (.ok [(.identifier, target), (.assign, text "=")]) value.lexicals

theorem lexesStatement {s : Statement} (spelled : s.Spellable) :
    Lexes 0 s.pieces.flatten s.lexicals 0 StandsApart := by
  cases s with
  | expression e span => exact Expr.lexesExpr spelled 0
  | assignment target value span =>
    have word := lexesKeyword spelled.1.1 spelled.1.2 0
    have sign := lexesMark (t := text "=") (u := unit '=') (k := .assign) rfl (by decide) 0
    have assigned := word.append ((lexesSpace 0).append (sign.append (lexesSpace 0) fun _ _ => trivial)
      fun _ _ => trivial) fun rest _ => spaceApart _
    have whole := assigned.append (Expr.lexesExpr spelled.2 0) fun _ _ => trivial
    have sides : text " = " = [unit ' '] ++ (text "=" ++ [unit ' ']) := rfl
    rw [pieces, List.flatten_cons, sides]
    exact whole

theorem readsStatement {s : Statement} (spelled : s.Spellable) (full : s.Full) :
    ∃ xs, s.lexicals = .ok xs ∧ ∀ ts : List Token, ts.map Token.lexical = xs →
      ∃ s', Parser.DerivesStatement ts s' ∧ s'.bare = s.bare := by
  cases s with
  | expression e span =>
    obtain ⟨xs, written, reads, _⟩ := Expr.readsExpr spelled full
    refine ⟨xs, written, fun ts same => ?_⟩
    obtain ⟨e', derives, equal⟩ := reads.expr same
    exact ⟨_, .expression derives, by simp [bare, equal]⟩
  | assignment target value span =>
    obtain ⟨xs, written, reads, _⟩ := Expr.readsExpr spelled.2 full
    refine ⟨(.identifier, target) :: (.assign, text "=") :: xs, by rw [lexicals, written]; rfl,
      fun ts same => ?_⟩
    obtain ⟨n, rest, rfl, names, tail⟩ := List.map_eq_cons_iff.mp same
    obtain ⟨a, us, rfl, sign, behind⟩ := List.map_eq_cons_iff.mp tail
    obtain ⟨e', derives, equal⟩ := reads.expr behind
    obtain ⟨kind, rfl⟩ := Parser.kindOfLexical names
    exact ⟨_, .assignment kind (Parser.kindOfLexical sign).1 derives, by simp [bare, equal]⟩

theorem lexicalsOfHole {s : Statement} (spelled : s.Spellable) (hole : ¬ s.Full) :
    s.lexicals = .error holeCause := by
  cases s with
  | expression e span => exact Expr.lexicalsOfHole spelled hole
  | assignment target value span =>
    rw [lexicals, Expr.lexicalsOfHole spelled.2 hole]
    rfl

end Statement

namespace Script

def Spellable (s : Script) : Prop := ∀ t ∈ s.statements, t.Spellable

def newlineLexical : Lexical := (.newline, [CodeUnit.newline])

def lineLexicals (lead : List Lexical) : List Statement → Except Cause (List Lexical)
  | [] => .ok []
  | s :: rest => joined (.ok lead) (joined s.lexicals (lineLexicals [newlineLexical] rest))

theorem linesApart {rest : Text} (apart : rest.StandsApart) (ss : List Statement) :
    StandsApart ((statementPieces [[CodeUnit.newline]] ss).flatten ++ rest) := by
  cases ss with
  | nil => exact apart
  | cons s ss => exact standsApartCons (u := CodeUnit.newline) (by decide) _

theorem lexesLines {ss : List Statement} (spelled : ∀ s ∈ ss, s.Spellable)
    (separator : List Text) {lead : List Lexical}
    (before : Lexes 0 separator.flatten (.ok lead) 0 Anything) :
    Lexes 0 (statementPieces separator ss).flatten (lineLexicals lead ss) 0 StandsApart := by
  induction ss generalizing separator lead with
  | nil => exact (lexesNothing 0).weaken fun _ _ => trivial
  | cons s ss ih =>
    have line : Lexes 0 [[CodeUnit.newline]].flatten (.ok [newlineLexical]) 0 Anything :=
      lexesNewline
    have others := ih (fun t member => spelled t (List.mem_cons_of_mem s member)) _ line
    have head := Statement.lexesStatement (spelled s List.mem_cons_self)
    have whole := before.append (head.append others fun _ apart => linesApart apart ss)
      fun _ _ => trivial
    simpa only [statementPieces, lineLexicals, List.flatten_append] using whole

theorem readsLines {ss : List Statement} (spelled : ∀ s ∈ ss, s.Spellable)
    (full : ∀ s ∈ ss, s.Full) :
    ∃ xs, lineLexicals [newlineLexical] ss = .ok xs ∧ ∀ ts us s,
      Parser.DerivesStatement ts s → us.map Token.lexical = xs →
      ∃ ss', Parser.DerivesLines (ts ++ us) (s :: ss') ∧
        ss'.map Statement.bare = ss.map Statement.bare := by
  induction ss with
  | nil =>
    refine ⟨[], rfl, fun ts us s statement same => ?_⟩
    rw [List.map_eq_nil_iff.mp same, List.append_nil]
    exact ⟨[], .last Parser.noNewlines statement, rfl⟩
  | cons t ss ih =>
    obtain ⟨ys, behind, others⟩ := ih (fun s member => spelled s (List.mem_cons_of_mem t member))
      fun s member => full s (List.mem_cons_of_mem t member)
    obtain ⟨xs, written, reads⟩ := Statement.readsStatement (spelled t List.mem_cons_self)
      (full t List.mem_cons_self)
    refine ⟨newlineLexical :: (xs ++ ys), by rw [lineLexicals, written, behind]; rfl,
      fun ts us s statement same => ?_⟩
    obtain ⟨n, rest, rfl, mark, tail⟩ := List.map_eq_cons_iff.mp same
    obtain ⟨vs, ws, rfl, front, back⟩ := List.map_eq_append_iff.mp tail
    obtain ⟨t', next, equal⟩ := reads vs front
    obtain ⟨ss', lines, equal'⟩ := others vs ws t' next back
    exact ⟨t' :: ss', .more Parser.noNewlines statement (Parser.kindOfLexical mark).1 lines,
      by simp [equal, equal']⟩

theorem readsScript {ss : List Statement} (spelled : ∀ s ∈ ss, s.Spellable)
    (full : ∀ s ∈ ss, s.Full) :
    ∃ xs, lineLexicals [] ss = .ok xs ∧ ∀ ts : List Token, ts.map Token.lexical = xs →
      ∃ ss', Parser.DerivesLines ts ss' ∧ ss'.map Statement.bare = ss.map Statement.bare := by
  cases ss with
  | nil =>
    refine ⟨[], rfl, fun ts same => ?_⟩
    rw [List.map_eq_nil_iff.mp same]
    exact ⟨[], .none Parser.noNewlines, rfl⟩
  | cons s ss =>
    obtain ⟨ys, behind, others⟩ := readsLines (fun t member => spelled t (List.mem_cons_of_mem s member))
      fun t member => full t (List.mem_cons_of_mem s member)
    obtain ⟨xs, written, reads⟩ := Statement.readsStatement (spelled s List.mem_cons_self)
      (full s List.mem_cons_self)
    refine ⟨xs ++ ys, by rw [lineLexicals, written, behind]; rfl, fun ts same => ?_⟩
    obtain ⟨vs, ws, rfl, front, back⟩ := List.map_eq_append_iff.mp same
    obtain ⟨s', first, equal⟩ := reads vs front
    obtain ⟨ss', lines, equal'⟩ := others vs ws s' first back
    exact ⟨s' :: ss', lines, by simp [equal, equal']⟩

theorem lineLexicalsOfHole {ss : List Statement} {lead : List Lexical}
    (spelled : ∀ s ∈ ss, s.Spellable) (hole : ¬ ∀ s ∈ ss, s.Full) :
    lineLexicals lead ss = .error holeCause := by
  induction ss generalizing lead with
  | nil => exact absurd (fun s member => by cases member) hole
  | cons s ss ih =>
    rw [lineLexicals]
    by_cases full : s.Full
    · obtain ⟨xs, written, _⟩ := Statement.readsStatement (spelled s List.mem_cons_self) full
      have rest : lineLexicals [newlineLexical] ss = .error holeCause :=
        ih (fun t member => spelled t (List.mem_cons_of_mem s member))
          fun others => hole (List.forall_mem_cons.mpr ⟨full, others⟩)
      rw [written, rest]
      rfl
    · rw [Statement.lexicalsOfHole (spelled s List.mem_cons_self) full]
      rfl

end Script

namespace Parser

theorem tokenizeLexed {t : Text} {xs : List Lexical} (lexes : Lexes 0 t (.ok xs) 0 StandsApart) :
    ∃ ts last, ts.map Token.lexical = xs ∧ last.kind = .endOfInput ∧
      tokenize t = .ok (ts ++ [last]) := by
  obtain ⟨ts, same, found⟩ := lexes .first [] fun u none => by cases none
  have trivia : splitTrivia (0 != 0) false [] = ([], []) := rfl
  have rest := tokensFromEnd trivia (Location.first.after t)
  rw [List.append_nil, rest] at found
  exact ⟨ts, _, same, rfl, found⟩

theorem tokenizeRefused {t : Text} {cause : Cause}
    (lexes : Lexes 0 t (.error cause) 0 StandsApart) :
    ∃ place, tokenize t = .error ⟨cause, some place⟩ := by
  obtain ⟨place, found⟩ := lexes .first [] fun u none => by cases none
  rw [List.append_nil] at found
  exact ⟨place, found⟩

theorem scriptOfTokenized {t : Text} {ts : List Token} (tokens : tokenize t = .ok ts) :
    script t = scriptOfTokens ts := by
  rw [script, tokens]

theorem exprOfTokenized {t : Text} {ts : List Token} (tokens : tokenize t = .ok ts) :
    expression t = exprOfTokens ts := by
  rw [expression, tokens]

theorem readIfOk (source : Text) (ok : (script source).isOk = true) :
    ∃ s, script source = .ok s := by
  cases read : script source with
  | ok s => exact ⟨s, rfl⟩
  | error f =>
    rw [read] at ok
    cases ok

def RefusedByLexer (f : Fault) : Prop :=
  f.report.reportClass = .lexer ∧ f.report.id.code = text "SKIFF-L002"

theorem holeRefused (place : Option Location) : RefusedByLexer ⟨holeCause, place⟩ :=
  ⟨rfl, rfl⟩

/- Reading what was printed gives back the tree, without the places of its nodes, when every element
slot holds an expression; otherwise the lexer refuses the printed text. -/
theorem printedReadsBack :
    (∀ s : Script, s.Spellable →
      (s.Full → ∃ r, script (Node.script s).printed = .ok r ∧ r.bare = s.bare) ∧
      (¬ s.Full → ∃ f, script (Node.script s).printed = .error f ∧ RefusedByLexer f)) ∧
    ∀ e : Expr, e.Spellable →
      (e.Full → ∃ r, expression e.printed = .ok r ∧ r.bare = e.bare) ∧
      (¬ e.Full → ∃ f, expression e.printed = .error f ∧ RefusedByLexer f) := by
  refine ⟨fun s spelled => ?_, fun e spelled => ?_⟩
  · have lexes := Script.lexesLines spelled [] (lexesNothing 0)
    refine ⟨fun full => ?_, fun hole => ?_⟩
    · obtain ⟨xs, written, reads⟩ := Script.readsScript spelled full
      rw [written] at lexes
      obtain ⟨ts, last, same, ends, tokens⟩ := tokenizeLexed lexes
      obtain ⟨ss, lines, equal⟩ := reads ts same
      exact ⟨_, (scriptOfTokenized tokens).trans (scriptAccepted lines ends),
        congrArg (Script.mk · .synthetic) equal⟩
    · rw [Script.lineLexicalsOfHole spelled hole] at lexes
      obtain ⟨place, refused⟩ := tokenizeRefused lexes
      refine ⟨_, ?_, holeRefused (some place)⟩
      rw [script, Node.printed, Node.pieces, refused]
  · have lexes := Expr.lexesExpr spelled 0
    refine ⟨fun full => ?_, fun hole => ?_⟩
    · obtain ⟨xs, written, reads, _⟩ := Expr.readsExpr spelled full
      rw [written] at lexes
      obtain ⟨ts, last, same, ends, tokens⟩ := tokenizeLexed lexes
      obtain ⟨r, derives, equal⟩ := reads.expr same
      exact ⟨r, (exprOfTokenized tokens).trans (exprAccepted derives ends), equal⟩
    · rw [Expr.lexicalsOfHole spelled hole] at lexes
      obtain ⟨place, refused⟩ := tokenizeRefused lexes
      refine ⟨_, ?_, holeRefused (some place)⟩
      rw [expression, Expr.printed, refused]

section
open SeqScript.Expr

def smallest : Number := .finite false ⟨1, by decide +kernel⟩

def variableX : Expr := name (text "x") .synthetic

def nested (slot : Option Expr) : Expr :=
  unary .not (subscript (unary .negate variableX .synthetic)
    (call (text "f") [literal (.string []) .synthetic, sequence .tuple [slot] .synthetic,
      literal (.number smallest) .synthetic] .synthetic) .synthetic) .synthetic

def nestedScript (slot : Option Expr) : Script :=
  ⟨[.assignment (text "x") (nested slot) .synthetic, .expression (nested slot) .synthetic],
    .synthetic⟩

theorem nameX : IsName (text "x") := by
  have word : IsWord [unit 'x'] := wordOf rfl rfl
  exact ⟨word, rfl⟩

theorem nestedSpellable {slot : Option Expr} (spelled : AllSlots Spelled True [slot]) :
    (nested slot).Spellable := by
  have word : IsWord [unit 'f'] := wordOf rfl rfl
  have nameF : IsName (text "f") := ⟨word, rfl⟩
  exact ⟨trivial, trivial, ⟨trivial, nameX⟩, nameF, trivial, ⟨trivial, spelled⟩, ⟨_, rfl⟩, trivial⟩

theorem nestedFull {slot : Option Expr} :
    (nested slot).Full ↔ AllSlots (fun _ => True) False [slot] := by
  simp [nested, variableX, Full, All, AllArgs]

theorem nestedReadsBack :
    ((∃ r, script (Node.script (nestedScript (some variableX))).printed = .ok r ∧
        r.bare = (nestedScript (some variableX)).bare) ∧
      ∃ f, script (Node.script (nestedScript none)).printed = .error f ∧ RefusedByLexer f) ∧
    (∃ r, expression (nested (some variableX)).printed = .ok r ∧
        r.bare = (nested (some variableX)).bare) ∧
      ∃ f, expression (nested none).printed = .error f ∧ RefusedByLexer f := by
  have spelled : (nested (some variableX)).Spellable := nestedSpellable ⟨nameX, trivial⟩
  have spelled' : (nested none).Spellable := nestedSpellable ⟨trivial, trivial⟩
  have full : (nested (some variableX)).Full := nestedFull.mpr ⟨trivial, trivial⟩
  have hole : ¬ (nested none).Full := fun h => (nestedFull.mp h).1
  have scriptSpelled : (nestedScript (some variableX)).Spellable := by
    simp [Script.Spellable, nestedScript, Statement.Spellable, spelled, nameX]
  have scriptSpelled' : (nestedScript none).Spellable := by
    simp [Script.Spellable, nestedScript, Statement.Spellable, spelled', nameX]
  have scriptFull : (nestedScript (some variableX)).Full := by
    simp [Script.Full, nestedScript, Statement.Full, Statement.expr, full]
  have scriptHole : ¬ (nestedScript none).Full := by
    simp [Script.Full, nestedScript, Statement.Full, Statement.expr, hole]
  exact ⟨⟨(printedReadsBack.1 _ scriptSpelled).1 scriptFull,
      (printedReadsBack.1 _ scriptSpelled').2 scriptHole⟩,
    (printedReadsBack.2 _ spelled).1 full, (printedReadsBack.2 _ spelled').2 hole⟩

end

end Parser

end SeqScript
