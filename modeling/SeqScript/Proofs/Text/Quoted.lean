import SeqScript.Text.Quoted

/-! Quoted text and what it stands for. Exactly the texts that decode are read, each as its one
value; and what is written decodes to the text that was written, whatever follows it. -/
namespace SeqScript.Quoted
open CodeUnit

theorem readPlain {mark u : CodeUnit} (line : u ≠ newline) (inside : u ≠ mark)
    (plain : u ≠ backslash) (rest : Text) :
    read mark (u :: rest) = behind [u] [u] (read mark rest) := by
  cases rest <;> simp [read, line, inside, plain]

theorem readMark {mark : CodeUnit} (line : mark ≠ newline) (rest : Text) :
    read mark (mark :: rest) = .ok ⟨[], [mark], rest⟩ := by
  cases rest <;> simp [read, line]

def escapes : List (CodeUnit × CodeUnit) :=
  [(unit 'n', newline), (unit 'r', carriageReturn), (unit 't', tab), (backslash, backslash),
    (quote, quote), (apostrophe, apostrophe)]

theorem unescapeIff {e v : CodeUnit} : unescape e = some v ↔ (e, v) ∈ escapes := by
  constructor
  · intro named
    unfold unescape at named
    split at named
    · subst e; cases named; decide
    split at named
    · subst e; cases named; decide
    split at named
    · subst e; cases named; decide
    split at named
    · rename_i itself
      cases named
      rcases itself with rfl | rfl | rfl <;> decide
    · cases named
  · intro member
    have table : escapes.all (fun p => unescape p.1 == some p.2) = true := rfl
    exact beq_iff_eq.mp (List.all_eq_true.mp table (e, v) member)

inductive Decodes (mark : CodeUnit) : Text → Text → Prop
  | nothing : Decodes mark [] []
  | plain {u : CodeUnit} {body value : Text} (line : u ≠ newline) (inside : u ≠ mark)
      (noEscape : u ≠ backslash) (others : Decodes mark body value) :
      Decodes mark (u :: body) (u :: value)
  | escaped {e v : CodeUnit} {body value : Text} (names : (e, v) ∈ escapes)
      (others : Decodes mark body value) : Decodes mark (backslash :: e :: body) (v :: value)

def IsMark (mark : CodeUnit) : Prop := mark = quote ∨ mark = apostrophe

theorem IsMark.bounds {mark : CodeUnit} (isMark : IsMark mark) :
    mark ≠ newline ∧ mark ≠ backslash := by
  rcases isMark with rfl | rfl <;> decide

theorem readDecoded {mark : CodeUnit} {body value : Text} (isMark : IsMark mark)
    (decodes : Decodes mark body value) (rest : Text) :
    read mark (body ++ mark :: rest) = .ok ⟨value, body ++ [mark], rest⟩ := by
  obtain ⟨line, noEscape⟩ := isMark.bounds
  induction decodes with
  | nothing => exact readMark line rest
  | plain line inside noEscape _ ih =>
    rw [List.cons_append, readPlain line inside noEscape, ih]
    rfl
  | escaped names _ ih =>
    have lead : backslash ≠ newline := by decide
    simp [read, lead, noEscape.symm, unescapeIff.mpr names, ih, behind, Found.behind]

theorem Decodes.unique {mark : CodeUnit} {body v w : Text} (isMark : IsMark mark)
    (first : Decodes mark body v) (second : Decodes mark body w) : v = w := by
  have same := (readDecoded isMark first []).symm.trans (readDecoded isMark second [])
  cases same
  rfl

theorem Decodes.escape {body value : Text} (u : CodeUnit) (others : Decodes quote body value) :
    Decodes quote (escape u ++ body) (u :: value) := by
  unfold Quoted.escape
  split
  · subst u; exact .escaped (e := backslash) (by decide) others
  split
  · subst u; exact .escaped (e := quote) (by decide) others
  split
  · subst u; exact .escaped (e := unit 'n') (by decide) others
  split
  · subst u; exact .escaped (e := unit 'r') (by decide) others
  split
  · subst u; exact .escaped (e := unit 't') (by decide) others
  · rename_i noEscape inside line _ _
    exact .plain line inside noEscape others

theorem decodesWritten (t : Text) : Decodes quote (t.flatMap escape) t := by
  induction t with
  | nil => exact .nothing
  | cons u t ih => exact ih.escape u

theorem readWritten (t rest : Text) :
    read quote (t.flatMap escape ++ quote :: rest) = .ok ⟨t, t.flatMap escape ++ [quote], rest⟩ :=
  readDecoded (.inl rfl) (decodesWritten t) rest

def escapePoint : Text → Text
  | [u] => escape u
  | point => point

theorem escapeSurrogate {u : CodeUnit} (surrogate : 0xD800 ≤ u) : Quoted.escape u = [u] := by
  have other {v : CodeUnit} (small : v < 0xD800) : u ≠ v := by
    rintro rfl
    exact absurd surrogate (UInt16.not_le.mpr small)
  have plain : u ≠ backslash ∧ u ≠ quote ∧ u ≠ newline ∧ u ≠ carriageReturn ∧ u ≠ tab :=
    ⟨other (by decide), other (by decide), other (by decide), other (by decide), other (by decide)⟩
  simp [Quoted.escape, plain]

/- Only single units are escaped, so it is all one whether a text is written by units or by points. -/
theorem writePoints (t : Text) :
    write t = quote :: t.codePoints.flatMap escapePoint ++ [quote] := by
  have points : t.codePoints.flatMap escapePoint = t.flatMap escape := by
    fun_induction Text.codePoints t with
    | case1 => rfl
    | case2 => rfl
    | case3 u v rest pair ih =>
      simp only [isHighSurrogate, isLowSurrogate, Bool.and_eq_true, decide_eq_true_eq] at pair
      obtain ⟨⟨high, _⟩, low, _⟩ := pair
      have second : (0xD800 : CodeUnit) ≤ v := UInt16.le_trans (by decide) low
      simp only [List.flatMap_cons, ih, escapePoint, escapeSurrogate high, escapeSurrogate second]
      rfl
    | case4 u v rest single ih =>
      rw [List.flatMap_cons, List.flatMap_cons, ih, escapePoint]
  rw [points, write]

theorem behindFound {value written : Text} {result : Except Problem Found} {f : Found}
    (found : behind value written result = .ok f) :
    ∃ g, result = .ok g ∧ f = g.behind value written := by
  cases result with
  | error p => cases found
  | ok g =>
    cases found
    exact ⟨g, rfl, rfl⟩

theorem decodesOfRead {mark : CodeUnit} {t : Text} {f : Found} (found : read mark t = .ok f) :
    ∃ body, f.written = body ++ [mark] ∧ Decodes mark body f.value := by
  fun_induction read mark t generalizing f with
  | case1 => cases found
  | case2 => cases found
  | case3 =>
    cases found
    exact ⟨[], rfl, .nothing⟩
  | case4 => cases found
  | case5 e rest v names _ _ ih =>
    obtain ⟨g, back, rfl⟩ := behindFound found
    obtain ⟨body, written, decodes⟩ := ih back
    exact ⟨backslash :: e :: body, congrArg (backslash :: e :: ·) written, .escaped (unescapeIff.mp names) decodes⟩
  | case6 => cases found
  | case7 u rest line inside noEscape ih =>
    obtain ⟨g, back, rfl⟩ := behindFound found
    obtain ⟨body, written, decodes⟩ := ih back
    exact ⟨u :: body, congrArg (u :: ·) written, .plain line inside noEscape decodes⟩

end SeqScript.Quoted
