/-! What a computation with a state and an early end ensures: one property of its value and last
state when it ends well, another of the reason and last state when it stops. -/
namespace SeqScript

variable {ε τ α β : Type}

def Ensures (s : τ) (m : ExceptT ε (StateM τ) α) (p : α → τ → Prop) (q : ε → τ → Prop) :
    Prop :=
  match m.run.run s with
  | (.ok a, t) => p a t
  | (.error e, t) => q e t

variable {s : τ} {p : α → τ → Prop} {q : ε → τ → Prop}

theorem ensuresPure {a : α} (holds : p a s) :
    Ensures s (pure a : ExceptT ε (StateM τ) α) p q := holds

theorem ensuresThrow {e : ε} (holds : q e s) :
    Ensures s (throw e : ExceptT ε (StateM τ) α) p q := holds

theorem ensuresModify {p : Unit → τ → Prop} {f : τ → τ} (holds : p () (f s)) :
    Ensures s (modify f : ExceptT ε (StateM τ) Unit) p q := holds

theorem ensuresModifyGet {f : τ → α × τ} (holds : p (f s).1 (f s).2) :
    Ensures s (modifyGet f : ExceptT ε (StateM τ) α) p q := holds

theorem Ensures.bind {m : ExceptT ε (StateM τ) α} {f : α → ExceptT ε (StateM τ) β}
    {r : α → τ → Prop} {p : β → τ → Prop} (first : Ensures s m r q)
    (second : ∀ a t, r a t → Ensures t (f a) p q) :
    Ensures s (m >>= f) p q := by
  have runs : (m >>= f).run.run s = match m.run.run s with
      | (.ok a, t) => (f a).run.run t
      | (.error e, t) => (.error e, t) := by
    simp only [ExceptT.run_bind, StateT.run_bind]
    rcases m.run.run s with ⟨_ | _, t⟩ <;> rfl
  unfold Ensures at *
  rw [runs]
  generalize m.run.run s = r at first
  rcases r with ⟨e | a, t⟩
  · exact first
  · exact second a t first

theorem Ensures.weaken {m : ExceptT ε (StateM τ) α} {p' : α → τ → Prop} {q' : ε → τ → Prop}
    (ensures : Ensures s m p q) (onOk : ∀ a t, p a t → p' a t)
    (onStopped : ∀ e t, q e t → q' e t) : Ensures s m p' q' := by
  unfold Ensures at *
  generalize m.run.run s = r at *
  rcases r with ⟨e | a, t⟩
  · exact onStopped e t ensures
  · exact onOk a t ensures

theorem Ensures.and {m : ExceptT ε (StateM τ) α} {p' : α → τ → Prop} {q' : ε → τ → Prop}
    (ensures : Ensures s m p q) (ensures' : Ensures s m p' q') :
    Ensures s m (fun a t => p a t ∧ p' a t) fun e t => q e t ∧ q' e t := by
  unfold Ensures at *
  generalize m.run.run s = r at *
  rcases r with ⟨e | a, t⟩
  · exact ⟨ensures, ensures'⟩
  · exact ⟨ensures, ensures'⟩

theorem ensuresRan (s : τ) (m : ExceptT ε (StateM τ) α) :
    Ensures s m (fun a t => m.run.run s = (.ok a, t)) fun e t => m.run.run s = (.error e, t) := by
  unfold Ensures
  split <;> assumption

theorem Ensures.bindRan {m : ExceptT ε (StateM τ) α} {f : α → ExceptT ε (StateM τ) β}
    {p : β → τ → Prop} (first : Ensures s m (fun _ _ => True) q)
    (second : ∀ a t, m.run.run s = (.ok a, t) → Ensures t (f a) p q) :
    Ensures s (m >>= f) p q :=
  (((ensuresRan s m).and first).weaken (fun _ _ both => both.1) fun _ _ both => both.2).bind second

theorem ensuresTrivial (m : ExceptT ε (StateM τ) α) :
    Ensures s m (fun _ _ => True) fun _ _ => True := by
  unfold Ensures
  split <;> trivial

theorem Ensures.outcome {m : ExceptT ε (StateM τ) α} (ensures : Ensures s m p q) :
    (∃ a t, m.run.run s = (.ok a, t) ∧ p a t) ∨ ∃ e t, m.run.run s = (.error e, t) ∧ q e t := by
  unfold Ensures at ensures
  split at ensures
  · exact .inl ⟨_, _, by assumption, ensures⟩
  · exact .inr ⟨_, _, by assumption, ensures⟩

theorem Ensures.onOk {m : ExceptT ε (StateM τ) α} (ensures : Ensures s m p q) {a : α} {t : τ}
    (run : m.run.run s = (.ok a, t)) : p a t := by
  unfold Ensures at ensures
  rwa [run] at ensures

theorem Ensures.onStopped {m : ExceptT ε (StateM τ) α} (ensures : Ensures s m p q) {e : ε}
    {t : τ} (run : m.run.run s = (.error e, t)) : q e t := by
  unfold Ensures at ensures
  rwa [run] at ensures

end SeqScript
