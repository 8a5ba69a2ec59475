import SeqScript.Proofs.Bindings
import SeqScript.Run.Result

/-! When the variables of a run have a place in its result: unless one of them comes behind a sequence
that has the unheld name and answers the name of the variable itself. -/
namespace SeqScript
open Bindings (unheldName)

namespace Bindings

/-- A name that a sequence would answer, and no other unheld value in between. -/
def Takes (b : Bindings Value) (kind : SequenceKind) (name : Text) : Prop :=
  name ∈ kind.answers ∧ ∃ (middle : Bindings Value) (v : Value) (rest : Bindings Value),
    b = middle ++ (name, v) :: rest ∧ unheldName ∉ middle.names

def Blocks (h : Heap) (b : Bindings Value) (kind : SequenceKind) (name : Text) : Prop :=
  ∃ (front : Bindings Value) (v : Value) (later : Bindings Value),
    b = front ++ (unheldName, v) :: later ∧ RunResult.behind? h v = some kind ∧ later.Takes kind name

variable {h : Heap} {p : Text × Value} {b : Bindings Value} {kind : SequenceKind} {name : Text}

theorem notTakenNil : ¬ Takes [] kind name := by
  rintro ⟨_, middle, v, rest, whole, _⟩
  simp at whole

theorem takesCons : Takes (p :: b) kind name ↔
    name ∈ kind.answers ∧ p.1 = name ∨ p.1 ≠ unheldName ∧ b.Takes kind name := by
  constructor
  · rintro ⟨answers, middle, v, rest, whole, nearest⟩
    cases middle with
    | nil =>
      cases whole
      exact .inl ⟨answers, rfl⟩
    | cons q middle =>
      obtain ⟨rfl, rfl⟩ := List.cons.inj whole
      obtain ⟨here, later⟩ := not_or.mp (mt List.mem_cons.mpr nearest)
      exact .inr ⟨fun same => here same.symm, answers, middle, v, rest, rfl, later⟩
  · rintro (⟨answers, rfl⟩ | ⟨other, answers, middle, v, rest, rfl, nearest⟩)
    · exact ⟨answers, [], p.2, b, rfl, List.not_mem_nil⟩
    · refine ⟨answers, p :: middle, v, rest, rfl, fun member => ?_⟩
      exact (List.mem_cons.mp member).elim other.symm nearest

theorem notBlockedNil : ¬ Blocks h [] kind name := by
  rintro ⟨front, v, later, whole, _⟩
  simp at whole

theorem blocksCons : Blocks h (p :: b) kind name ↔
    p.1 = unheldName ∧ RunResult.behind? h p.2 = some kind ∧ b.Takes kind name ∨
      Blocks h b kind name := by
  constructor
  · rintro ⟨front, v, later, whole, behind, takes⟩
    cases front with
    | nil =>
      cases whole
      exact .inl ⟨rfl, behind, takes⟩
    | cons q front =>
      obtain ⟨rfl, rfl⟩ := List.cons.inj whole
      exact .inr ⟨front, v, later, rfl, behind, takes⟩
  · rintro (⟨same, behind, takes⟩ | ⟨front, v, later, rfl, behind, takes⟩)
    · exact ⟨[], p.2, b, by rw [← same]; rfl, behind, takes⟩
    · exact ⟨p :: front, v, later, rfl, behind, takes⟩

theorem blockedUnheld (blocks : Blocks h b kind name) : unheldName ∈ b.names := by
  obtain ⟨front, v, later, rfl, _⟩ := blocks
  simp [names]

end Bindings

theorem SequenceKind.answersHeld {kind : SequenceKind} {name : Text} (answers : name ∈ kind.answers) :
    name ≠ unheldName := by
  rintro rfl
  cases kind <;> revert answers <;> decide

namespace RunResult

variable {h : Heap} {b : Bindings Value} {kind : SequenceKind} {name : Text}

def BlocksBehind (h : Heap) (behind : Option SequenceKind) (b : Bindings Value) (kind : SequenceKind)
    (name : Text) : Prop := behind = some kind ∧ b.Takes kind name ∨ b.Blocks h kind name

theorem blocksBehindCons {behind : Option SequenceKind} {p : Text × Value} :
    BlocksBehind h behind (p :: b) kind name ↔
      (behind = some kind ∧ name ∈ kind.answers ∧ p.1 = name) ∨
        BlocksBehind h (if p.1 = unheldName then behind? h p.2 else behind) b kind name := by
  unfold BlocksBehind
  rw [Bindings.takesCons, Bindings.blocksCons]
  by_cases same : p.1 = unheldName
  · rw [if_pos same]
    have held : ¬ (name ∈ kind.answers ∧ p.1 = name) := fun ⟨answers, is⟩ =>
      SequenceKind.answersHeld answers (is.symm.trans same)
    grind
  · rw [if_neg same]
    grind

theorem blockedBehind {behind : Option SequenceKind}
    (blocked : blocked? h behind b = some (kind, name)) : BlocksBehind h behind b kind name := by
  induction b generalizing behind with
  | nil => cases blocked
  | cons p rest ih =>
    obtain ⟨n, v⟩ := p
    simp only [blocked?] at blocked
    rw [blocksBehindCons]
    split at blocked
    · rename_i found
      cases blocked
      obtain ⟨is, answers⟩ := Option.filter_eq_some_iff.mp found
      exact .inl ⟨is, List.contains_iff_mem.mp answers, rfl⟩
    · exact .inr (ih blocked)

theorem freeBehind {behind : Option SequenceKind} (free : blocked? h behind b = none) :
    ¬ BlocksBehind h behind b kind name := by
  induction b generalizing behind with
  | nil => exact fun blocks => blocks.elim (fun takes => Bindings.notTakenNil takes.2) Bindings.notBlockedNil
  | cons p rest ih =>
    obtain ⟨n, v⟩ := p
    simp only [blocked?] at free
    rw [blocksBehindCons]
    split at free
    · cases free
    · rename_i found
      rintro (⟨rfl, answers, rfl⟩ | later)
      · simp [answers] at found
      · exact ih free later

inductive Collects (h : Heap) (value : Value) (b : Bindings Value) : Except Stop RunResult → Prop where
  | held (free : ∀ kind name, ¬ b.Blocks h kind name) : Collects h value b (.ok ⟨value, b.held⟩)
  | refused {kind : SequenceKind} {name : Text} (blocks : b.Blocks h kind name) :
      Collects h value b (.error (refused kind name))

theorem collects (h : Heap) (value : Value) (b : Bindings Value) :
    Collects h value b (collect h value b) := by
  unfold collect
  split
  · rename_i kind name blocked
    exact .refused ((blockedBehind blocked).resolve_left fun takes => nomatch takes.1)
  · rename_i free
    exact .held fun kind name blocks => freeBehind free (.inr blocks)

theorem collectFree {value : Value} (free : ∀ kind name, ¬ b.Blocks h kind name) :
    collect h value b = .ok ⟨value, b.held⟩ := by
  cases made : collect h value b with
  | ok result =>
    cases made ▸ collects h value b with
    | held => rfl
  | error stop =>
    cases made ▸ collects h value b with
    | refused blocks => exact absurd blocks (free _ _)

theorem collectBlocked {value : Value} {stop : Stop} (failed : collect h value b = .error stop) :
    ∃ kind name, stop = refused kind name ∧ b.Blocks h kind name := by
  cases failed ▸ collects h value b with
  | refused blocks => exact ⟨_, _, rfl, blocks⟩

theorem collectHeld (h : Heap) (value : Value) (absent : unheldName ∉ b.names) :
    collect h value b = .ok ⟨value, b⟩ := by
  rw [collectFree fun _ _ blocks => absent (Bindings.blockedUnheld blocks), Bindings.heldAll absent]

theorem collectEnds {value : Value} : collect h value b ≠ .error .stalled := by
  unfold collect
  split
  · nofun
  · nofun

theorem collectFrozen (h : Heap) (d : Domain) (value : Value) (b : Bindings Value) :
    collect (h.freeze d) value b = collect h value b := by
  have blocked (behind : Option SequenceKind) : blocked? (h.freeze d) behind b = blocked? h behind b := by
    induction b generalizing behind with
    | nil => rfl
    | cons p rest ih =>
      have same : behind? (h.freeze d) p.2 = behind? h p.2 := rfl
      rw [blocked?, blocked?, same, ih]
  rw [collect, collect, blocked]

end RunResult

def takesLength : List Statement :=
  let number (n : Nat) : Expr := .literal (.number (.ofNat n)) .synthetic
  [.assignment unheldName (.sequence .tuple [some (number 1)] .synthetic) .synthetic,
    .assignment (text "length") (number 5) .synthetic]

end SeqScript
