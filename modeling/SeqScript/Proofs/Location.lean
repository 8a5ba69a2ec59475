import SeqScript.Location

/-! Locations and the source text they belong to. -/
namespace SeqScript.Location
open CodeUnit (newline)

structure LiesIn (source : Text) (l : Location) : Prop where
  offset : l.offset ≤ source.length
  line : l.line = (source.take l.offset).count newline + 1
  column : l.column = ((source.take l.offset).reverse.takeWhile (· ≠ newline)).length + 1

def FoundIn (source : Text) (place : Option Location) : Prop := ∃ l, place = some l ∧ l.LiesIn source

theorem afterFirst (t : Text) :
    (first.after t).line = t.count newline + 1 ∧
      (first.after t).column = (t.reverse.takeWhile (· ≠ newline)).length + 1 := by
  generalize same : t.reverse = r
  induction r generalizing t with
  | nil =>
    rw [List.reverse_eq_nil_iff.mp same]
    exact ⟨rfl, rfl⟩
  | cons u r ih =>
    have split : t = r.reverse ++ [u] := by rw [← List.reverse_reverse t, same, List.reverse_cons]
    obtain ⟨line, column⟩ := ih r.reverse (List.reverse_reverse r)
    subst split
    rw [afterAppend, afterCons, afterNil, next]
    by_cases ends : u = newline
    · subst ends
      simp [line]
    · simp [ends, line, column]

theorem liesIn {source before rest : Text} (same : source = before ++ rest) :
    (first.after before).LiesIn source := by
  have offset : (first.after before).offset = before.length := by
    rw [offsetAfter]
    exact Nat.zero_add _
  have taken : source.take (first.after before).offset = before := by
    rw [offset, same, List.take_left]
  refine ⟨?_, ?_, ?_⟩
  · rw [offset, same, List.length_append]
    omega
  · rw [taken]
    exact (afterFirst before).1
  · rw [taken]
    exact (afterFirst before).2

theorem afterInLine {t : Text} (inLine : newline ∉ t) (l : Location) :
    l.after t = ⟨l.line, l.column + t.length, l.offset + t.length⟩ := by
  induction t generalizing l with
  | nil => rfl
  | cons u t ih =>
    obtain ⟨other, inLine⟩ := not_or.mp (mt List.mem_cons.mpr inLine)
    rw [afterCons, next, if_neg (Ne.symm other), ih inLine]
    simp only [List.length_cons, mk.injEq, true_and]
    omega

theorem LiesIn.real {source : Text} {s : Span} (lies : s.start.LiesIn source) :
    s.isSynthetic = false := by
  have line := lies.line
  simp only [Span.isSynthetic, beq_eq_false_iff_ne]
  omega

theorem LiesIn.read {source : Text} {s : Span} (lies : s.start.LiesIn source) :
    s.location? = some s.start := by
  simp [Span.location?, lies.real]

end SeqScript.Location
