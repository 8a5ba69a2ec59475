import SeqScript.Bindings

/-! Which names and which pairs are in bindings. -/
namespace SeqScript

namespace Bindings

variable {α : Type}

theorem memNamesSet {b : Bindings α} {name n : Text} {a : α} :
    n ∈ (b.set name a).names ↔ n ∈ b.names ∨ n = name := by
  rw [namesSet]
  split
  · rename_i there
    exact (or_iff_left_of_imp fun same => same ▸ there).symm
  · rw [List.mem_append, List.mem_singleton]

theorem containsSet {b : Bindings α} {name n : Text} {a : α}
    (there : b.contains n = true) : (b.set name a).contains n = true := by
  rw [containsIff] at there ⊢
  exact memNamesSet.mpr (.inl there)

theorem memSet {b : Bindings α} {name : Text} {a : α} {p : Text × α} (member : p ∈ b.set name a) :
    p = (name, a) ∨ p ∈ b := by
  induction b with
  | nil => exact .inl (List.mem_singleton.mp member)
  | cons q rest ih =>
    simp only [set] at member
    split at member
    · rename_i same
      rcases List.mem_cons.mp member with here | later
      · exact .inl (same ▸ here)
      · exact .inr (List.mem_cons_of_mem q later)
    · rcases List.mem_cons.mp member with here | later
      · exact .inr (List.mem_cons.mpr (.inl here))
      · exact (ih later).imp id (List.mem_cons_of_mem q)

theorem memGet {b : Bindings α} {name : Text} {a : α} (there : b.get? name = some a) :
    (name, a) ∈ b := by
  induction b with
  | nil => cases there
  | cons q rest ih =>
    simp only [get?] at there
    split at there
    · rename_i same
      cases there
      exact same ▸ List.mem_cons_self
    · exact List.mem_cons_of_mem q (ih there)

theorem getOfMem {b : Bindings α} (distinct : b.names.Nodup) {p : Text × α} (member : p ∈ b) :
    b.get? p.1 = some p.2 := by
  induction b with
  | nil => cases member
  | cons q rest ih =>
    obtain ⟨absent, distinct⟩ := List.nodup_cons.mp distinct
    rcases List.mem_cons.mp member with rfl | later
    · simp [get?]
    · have other : q.1 ≠ p.1 := fun same => absent (same ▸ List.mem_map_of_mem later)
      simp only [get?, if_neg other, ih distinct later]

theorem memOfPairs {pairs : List (Text × α)} {p : Text × α} (member : p ∈ ofPairs pairs) :
    p ∈ pairs := by
  have bound (ps : List (Text × α)) (b : Bindings α)
      (member : p ∈ ps.foldl (fun b q => set q.1 q.2 b) b) : p ∈ b ∨ p ∈ ps := by
    induction ps generalizing b with
    | nil => exact .inl member
    | cons q rest ih =>
      rcases ih _ member with there | later
      · rcases memSet there with same | before
        · exact .inr (same ▸ List.mem_cons_self)
        · exact .inl before
      · exact .inr (List.mem_cons_of_mem q later)
  exact (bound pairs [] member).resolve_left List.not_mem_nil

theorem distinctSet {b : Bindings α} {name : Text} {a : α} (distinct : b.names.Nodup) :
    (b.set name a).names.Nodup := by
  rw [namesSet]
  split
  · exact distinct
  · rename_i absent
    refine List.nodup_append.mpr ⟨distinct, by simp, fun n member m added same => ?_⟩
    cases List.mem_singleton.mp added
    exact absurd (same ▸ member) absent

theorem heldAll {b : Bindings α} (absent : unheldName ∉ b.names) : b.held = b := by
  refine List.filter_eq_self.mpr fun p member => decide_eq_true fun same => absent ?_
  exact same ▸ List.mem_map_of_mem member

theorem distinctOfPairs (pairs : List (Text × α)) : (ofPairs pairs).names.Nodup := by
  have kept (ps : List (Text × α)) (b : Bindings α) (distinct : b.names.Nodup) :
      (ps.foldl (fun b q => set q.1 q.2 b) b).names.Nodup := by
    induction ps generalizing b with
    | nil => exact distinct
    | cons q rest ih => exact ih _ (distinctSet distinct)
  exact kept pairs [] List.nodup_nil

theorem getHeld (b : Bindings α) {name : Text} (other : name ≠ unheldName) :
    b.held.get? name = b.get? name := by
  induction b with
  | nil => rfl
  | cons q rest ih =>
    unfold held at ih ⊢
    rw [List.filter_cons]
    split
    · simp only [get?, ih]
    · rename_i unheld
      have same : q.1 = unheldName := by simpa using unheld
      simp only [get?, same, if_neg other.symm, ih]

theorem distinctHeld {b : Bindings α} (distinct : b.names.Nodup) : b.held.names.Nodup :=
  distinct.sublist (List.filter_sublist.map Prod.fst)

theorem notHeld (b : Bindings α) : unheldName ∉ b.held.names := by
  intro member
  obtain ⟨p, inside, same⟩ := List.mem_map.mp member
  simp [held, same] at inside

end Bindings

end SeqScript
