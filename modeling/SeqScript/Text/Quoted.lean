import SeqScript.Text.Basic

/-!
Quoted strings. Writing puts a text between double quotes and escapes the backslash, the double
quote, the newline, the carriage return and the tab. Reading accepts either quote and six escapes,
and ends at the first quote of the kind it began with.
-/
namespace SeqScript.Quoted

open CodeUnit

def carriageReturn : CodeUnit := unit '\r'
def tab : CodeUnit := unit '\t'

def escape (u : CodeUnit) : Text :=
  if u = backslash then [backslash, backslash]
  else if u = quote then [backslash, quote]
  else if u = newline then [backslash, unit 'n']
  else if u = carriageReturn then [backslash, unit 'r']
  else if u = tab then [backslash, unit 't']
  else [u]

def write (t : Text) : Text := quote :: t.flatMap escape ++ [quote]

def unescape (u : CodeUnit) : Option CodeUnit :=
  if u = unit 'n' then some newline
  else if u = unit 'r' then some carriageReturn
  else if u = unit 't' then some tab
  else if u = backslash ∨ u = quote ∨ u = apostrophe then some u
  else none

structure Found where
  value : Text
  written : Text
  rest : Text
  deriving DecidableEq, Repr

/- Why no string was read. A refused escape tells what was written before the refused unit,
which is absent at the end of the text. -/
inductive Problem where
  | unterminated
  | badEscape (before : Text) (sequence : Text)
  deriving DecidableEq, Repr

def Found.behind (value written : Text) (f : Found) : Found :=
  ⟨value ++ f.value, written ++ f.written, f.rest⟩

def Problem.behind (written : Text) : Problem → Problem
  | .unterminated => .unterminated
  | .badEscape before sequence => .badEscape (written ++ before) sequence

def behind (value written : Text) : Except Problem Found → Except Problem Found
  | .ok f => .ok (f.behind value written)
  | .error p => .error (p.behind written)

def read (mark : CodeUnit) : Text → Except Problem Found
  | [] => .error .unterminated
  | u :: rest =>
    if u = newline then .error .unterminated
    else if u = mark then .ok ⟨[], [u], rest⟩
    else if u = backslash then
      match rest with
      | [] => .error (.badEscape [u] [])
      | e :: rest =>
        match unescape e with
        | some v => behind [v] [u, e] (read mark rest)
        | none => .error (.badEscape [u] [e])
    else behind [u] [u] (read mark rest)

theorem readAppend {mark : CodeUnit} {t : Text} {f : Found} (h : read mark t = .ok f) :
    f.written ++ f.rest = t := by
  fun_induction read mark t generalizing f with
  | case1 => simp at h
  | case2 => simp at h
  | case3 u rest => simp only [Except.ok.injEq] at h; subst h; rfl
  | case4 => simp at h
  | case5 e rest v _ _ _ ih =>
    cases r : read mark rest with
    | error p => simp [r, behind] at h
    | ok g =>
      simp only [r, behind, Except.ok.injEq] at h
      subst h
      simp [Found.behind, ← ih r]
  | case6 => simp at h
  | case7 u rest _ _ _ ih =>
    cases r : read mark rest with
    | error p => simp [r, behind] at h
    | ok g =>
      simp only [r, behind, Except.ok.injEq] at h
      subst h
      simp [Found.behind, ← ih r]

end SeqScript.Quoted
