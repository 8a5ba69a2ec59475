import SeqScript.Text.Basic

/-!
Places in a source text. A location counts code units; lines and columns start at one. Nodes
that were built rather than read carry the synthetic span, whose line is zero.
-/
namespace SeqScript

structure Location where
  line : Nat
  column : Nat
  offset : Nat
  deriving DecidableEq, Repr, Inhabited

namespace Location

def first : Location := ⟨1, 1, 0⟩

def next (l : Location) (u : CodeUnit) : Location :=
  if u = CodeUnit.newline then ⟨l.line + 1, 1, l.offset + 1⟩
  else ⟨l.line, l.column + 1, l.offset + 1⟩

def after (l : Location) (t : Text) : Location := t.foldl next l

@[simp] theorem afterNil (l : Location) : l.after [] = l := rfl

@[simp] theorem afterCons (l : Location) (u : CodeUnit) (t : Text) :
    l.after (u :: t) = (l.next u).after t := rfl

theorem afterAppend (l : Location) (s t : Text) : l.after (s ++ t) = (l.after s).after t :=
  List.foldl_append

theorem offsetNext (l : Location) (u : CodeUnit) : (l.next u).offset = l.offset + 1 := by
  unfold next; split <;> rfl

theorem offsetAfter (l : Location) (t : Text) : (l.after t).offset = l.offset + t.length := by
  induction t generalizing l with
  | nil => rfl
  | cons u t ih => simp only [afterCons, ih, offsetNext, List.length_cons]; omega

def suffix (l : Location) : Text :=
  text " at " ++ Text.ofNat l.line ++ text ":" ++ Text.ofNat l.column

end Location

structure Span where
  start : Location
  stop : Location
  deriving DecidableEq, Repr, Inhabited

namespace Span

def synthetic : Span := ⟨⟨0, 0, 0⟩, ⟨0, 0, 0⟩⟩

def isSynthetic (s : Span) : Bool := s.start.line == 0

def location? (s : Span) : Option Location := if s.isSynthetic then none else some s.start

end Span

end SeqScript
