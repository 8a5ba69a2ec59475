import SeqScript.Proofs.Bindings
import SeqScript.Proofs.Value.Depicted
import SeqScript.Settings.Basic

/-! The shapes that data of settings may have, what each of their entries may be refused for, and what
settings hold that were read from them. -/
namespace SeqScript

namespace Data

def Counts (d : Data) (n : Nat) : Prop :=
  0 < n ∧ ∃ x : Number, d = .scalar (.number x) ∧ x.toInt? = some (n : Int)

inductive Bindable : Data → Prop where
  | scalar (s : Scalar) : Bindable (.scalar s)
  | sequence {items} (all : ∀ d ∈ items, Bindable d) : Bindable (.sequence items)

inductive Offends : Data → List Nat → Prop where
  | mapping (entries : List (Text × Data)) : Offends (.mapping entries) []
  | inside {before d behind path} (bindable : ∀ c ∈ before, Bindable c) (offends : Offends d path) :
      Offends (.sequence (before ++ d :: behind)) (before.length :: path)

def under? (d : Data) (name : Text) : Option Data :=
  match d with
  | mapping entries => (Bindings.ofPairs entries).get? name
  | _ => Option.none

theorem positiveCounts {d : Data} {n : Nat} (positive : d.positive? = some n) : d.Counts n := by
  unfold positive? at positive
  split at positive
  · rename_i x
    split at positive
    · rename_i m whole
      cases positive
      exact ⟨m.succ_pos, x, rfl, whole⟩
    · cases positive
  · cases positive

theorem countsPositive {d : Data} {n : Nat} (counts : d.Counts n) : d.positive? = some n := by
  obtain ⟨above, x, rfl, whole⟩ := counts
  cases n with
  | zero => cases above
  | succ n =>
    have same : x.toInt? = some (.ofNat (n + 1)) := whole
    unfold positive?
    dsimp only
    rw [same]

theorem uncounted {d : Data} (not : d.positive? = Option.none) (n : Nat) : ¬ d.Counts n := by
  intro counts
  rw [countsPositive counts] at not
  cases not

theorem Offends.notBindable {d : Data} {path : List Nat} (offends : d.Offends path) :
    ¬ d.Bindable := by
  induction offends with
  | mapping entries => nofun
  | inside bindable offends ih =>
    intro whole
    cases whole with
    | sequence all => exact ih (all _ (by simp))

end Data

theorem SettingsKey.found (key : SettingsKey) : ofName? key.name = some key := by cases key <;> decide

theorem LimitKey.found (key : LimitKey) : ofName? key.name = some key := by cases key <;> decide

section Names

variable {α : Type} {name : α → Text} {ofName? : Text → Option α} (found : ∀ a, ofName? (name a) = some a)
include found

theorem nameNotFound {n : Text} (none : ofName? n = none) (a : α) : n ≠ name a := by
  intro same
  rw [same, found a] at none
  cases none

theorem sameNamed {a b : α} (same : name a = name b) : a = b := by
  have first := found a
  rw [same, found b] at first
  exact (Option.some.inj first).symm

theorem getNamed [DecidableEq α] (entries : Bindings Data) (a b : α) (d : Data) :
    (entries.set (name a) d).get? (name b) = if a = b then some d else entries.get? (name b) := by
  have names : name a = name b ↔ a = b := ⟨sameNamed found, congrArg name⟩
  simp only [Bindings.getSet, names]

end Names

theorem nameOfFound {α : Type} {all : List α} {name : α → Text} {n : Text} {a : α}
    (found : all.find? (fun b => name b == n) = some a) : n = name a :=
  (beq_iff_eq.mp (List.find?_some (p := fun b => name b == n) found)).symm

def FirstOf {α : Type} (passes stops : α → Prop) (l : List α) : Prop :=
  ∃ before a behind, l = before ++ a :: behind ∧ (∀ c ∈ before, passes c) ∧ stops a

namespace FirstOf

variable {α : Type} {passes stops : α → Prop} {a : α} {l : List α}

theorem here (first : stops a) : FirstOf passes stops (a :: l) :=
  ⟨[], a, l, rfl, List.forall_mem_nil _, first⟩

theorem later (first : passes a) (rest : FirstOf passes stops l) : FirstOf passes stops (a :: l) := by
  obtain ⟨before, b, behind, rfl, others, last⟩ := rest
  exact ⟨a :: before, b, behind, rfl, List.forall_mem_cons.mpr ⟨first, others⟩, last⟩

theorem found (first : FirstOf passes stops l) : ∃ a ∈ l, stops a := by
  obtain ⟨before, a, behind, rfl, _, last⟩ := first
  exact ⟨a, List.mem_append_right _ (List.mem_cons_self ..), last⟩

end FirstOf

namespace Settings
open Bindings (unheldName)

def LimitAllowed (e : Text × Data) : Prop := ∃ key : LimitKey, e.1 = key.name ∧ ∃ n, e.2.Counts n

inductive Allowed : SettingsKey → Data → Prop where
  | timeout {d n} (counts : d.Counts n) : Allowed .timeout d
  | diagnostics {entries} (limits : ∀ e ∈ entries, LimitAllowed e) :
      Allowed .diagnostics (.mapping entries)
  | bindings {entries} (bindable : ∀ e ∈ entries, e.2.Bindable) : Allowed .bindings (.mapping entries)

def Valid (d : Data) : Prop :=
  d = .none ∨ ∃ entries, d = .mapping entries ∧
    ∀ e ∈ entries, ∃ key : SettingsKey, e.1 = key.name ∧ Allowed key e.2

def Behind (entries : List (Text × Data)) : Prop := ∃ items, (unheldName, .sequence items) ∈ entries

/-- One of these variables is a `length` that comes when a sequence stands behind the others. -/
def Hides (entries : List (Text × Data)) : Prop :=
  ∃ before d behind, entries = before ++ (text "length", d) :: behind ∧ Behind before

def Hidden (d : Data) : Prop :=
  ∃ all entries, d = .mapping all ∧ (SettingsKey.bindings.name, .mapping entries) ∈ all ∧ Hides entries

inductive LimitRefused : Text × Data → SettingsFault → Prop where
  | unknown {name d} (other : ∀ key : LimitKey, name ≠ key.name) :
      LimitRefused (name, d) (.unknownLimit name)
  | limit {key : LimitKey} {d} (uncounted : ∀ n, ¬ d.Counts n) :
      LimitRefused (key.name, d) (.limit key)

inductive BindingRefused (behind : Prop) : Text × Data → SettingsFault → Prop where
  | mapping {name d path} (offends : d.Offends path) :
      BindingRefused behind (name, d) (.variable name path)
  | hidden {d} (bindable : d.Bindable) (inFront : behind) :
      BindingRefused behind (text "length", d) (.unassignable (text "length"))

inductive KeyRefused : SettingsKey → Data → SettingsFault → Prop where
  | timeout {d} (uncounted : ∀ n, ¬ d.Counts n) : KeyRefused .timeout d .timeout
  | noLimits {d} (other : ∀ entries, d ≠ .mapping entries) :
      KeyRefused .diagnostics d .diagnosticsNotMapping
  | limit {entries f} (first : FirstOf LimitAllowed (LimitRefused · f) entries) :
      KeyRefused .diagnostics (.mapping entries) f
  | noBindings {d} (other : ∀ entries, d ≠ .mapping entries) :
      KeyRefused .bindings d .variablesNotMapping
  | binding {before e behind f} (bindable : ∀ c ∈ before, c.2.Bindable) (free : ¬ Hides before)
      (refused : BindingRefused (Behind before) e f) :
      KeyRefused .bindings (.mapping (before ++ e :: behind)) f

inductive EntryRefused : Text × Data → SettingsFault → Prop where
  | unknown {name d} (other : ∀ key : SettingsKey, name ≠ key.name) :
      EntryRefused (name, d) (.unknownKey name)
  | known {key : SettingsKey} {d f} (refused : KeyRefused key d f) : EntryRefused (key.name, d) f

def Readable (e : Text × Data) : Prop :=
  ∃ key : SettingsKey, e.1 = key.name ∧ Allowed key e.2 ∧
    ∀ entries, key = .bindings → e.2 = .mapping entries → ¬ Hides entries

inductive Refused : Data → SettingsFault → Prop where
  | notMapping {d} (given : d ≠ .none) (other : ∀ entries, d ≠ .mapping entries) :
      Refused d .notMapping
  | entry {entries f} (first : FirstOf Readable (EntryRefused · f) entries) :
      Refused (.mapping entries) f

theorem LimitRefused.notAllowed {e : Text × Data} {f : SettingsFault} (refused : LimitRefused e f) :
    ¬ LimitAllowed e := by
  intro ⟨key, same, n, counts⟩
  cases refused with
  | unknown other => exact other key same
  | limit uncounted => exact uncounted n counts

theorem BindingRefused.notBound {before behind : List (Text × Data)} {e : Text × Data}
    {f : SettingsFault} (refused : BindingRefused (Behind before) e f) (bindable : e.2.Bindable) :
    Hides (before ++ e :: behind) := by
  cases refused with
  | mapping offends => exact absurd bindable offends.notBindable
  | hidden _ inside => exact ⟨before, _, behind, rfl, inside⟩

theorem KeyRefused.notReadable {key : SettingsKey} {d : Data} {f : SettingsFault}
    (refused : KeyRefused key d f) (allowed : Allowed key d)
    (free : ∀ entries, key = .bindings → d = .mapping entries → ¬ Hides entries) : False := by
  cases allowed with
  | timeout counts =>
    cases refused with
    | timeout uncounted => exact uncounted _ counts
  | diagnostics limits =>
    cases refused with
    | noLimits other => exact other _ rfl
    | limit first =>
      obtain ⟨e, member, refused⟩ := first.found
      exact refused.notAllowed (limits e member)
  | bindings bindable =>
    cases refused with
    | noBindings other => exact other _ rfl
    | binding _ _ refused => exact free _ rfl rfl (refused.notBound (bindable _ (by simp)))

theorem EntryRefused.notReadable {e : Text × Data} {f : SettingsFault} (refused : EntryRefused e f) :
    ¬ Readable e := by
  intro ⟨key, same, allowed, free⟩
  cases refused with
  | unknown other => exact other key same
  | known refused =>
    cases sameNamed SettingsKey.found same
    exact refused.notReadable allowed free

theorem Refused.invalid {d : Data} {f : SettingsFault} (refused : Refused d f) :
    ¬ (Valid d ∧ ¬ Hidden d) := by
  intro ⟨valid, shown⟩
  cases refused with
  | notMapping given other =>
    rcases valid with rfl | ⟨entries, rfl, _⟩
    · exact given rfl
    · exact other entries rfl
  | entry first =>
    obtain ⟨e, member, refused⟩ := first.found
    rcases valid with same | ⟨entries, same, allowed⟩
    · cases same
    · cases same
      obtain ⟨key, name, allowed⟩ := allowed e member
      have free (inner) (bindings : key = .bindings) (mapping : e.2 = .mapping inner) : ¬ Hides inner := by
        intro hides
        have here : e = (SettingsKey.bindings.name, .mapping inner) := Prod.ext (bindings ▸ name) mapping
        exact shown ⟨_, inner, rfl, here ▸ member, hides⟩
      exact refused.notReadable ⟨key, name, allowed, free⟩

theorem validIfReadable {entries : List (Text × Data)} (readable : ∀ e ∈ entries, Readable e) :
    Valid (.mapping entries) ∧ ¬ Hidden (.mapping entries) := by
  constructor
  · right
    use entries, rfl
    intro e member
    obtain ⟨key, name, allowed, _⟩ := readable e member
    exact ⟨key, name, allowed⟩
  · intro ⟨all, inner, same, member, hides⟩
    cases same
    obtain ⟨key, name, _, free⟩ := readable _ member
    exact free inner (sameNamed SettingsKey.found name).symm rfl hides

mutual

inductive Image (h : Heap) : Data → Value → Prop where
  | scalar (s : Scalar) : Image h (.scalar s) (.scalar s)
  | sequence {items : List Data} {r : Ref} (held : h.holds r = true) (tuple : h.kind r = .tuple)
      (inside : ImageAll h items (h.items r)) : Image h (.sequence items) (.object r)

inductive ImageAll (h : Heap) : List Data → List Value → Prop where
  | none : ImageAll h [] []
  | more {d : Data} {v : Value} {ds : List Data} {vs : List Value} (first : Image h d v)
      (others : ImageAll h ds vs) : ImageAll h (d :: ds) (v :: vs)

end

structure LimitsHeld (under? : Text → Option Data) (l : LimitSettings) : Prop where
  maxElements : Option.Rel Data.Counts (under? LimitKey.maxElements.name) l.maxElements
  maxLength : Option.Rel Data.Counts (under? LimitKey.maxLength.name) l.maxLength

structure BindingsHeld (h : Heap) (under? : Text → Option Data) (b : Bindings Value) : Prop where
  once : b.names.Nodup
  unheld : unheldName ∉ b.names
  values : ∀ name, name ≠ unheldName → Option.Rel (Image h) (under? name) (b.get? name)

structure Held (h : Heap) (under? : Text → Option Data) (s : Settings) : Prop where
  timeout : Option.Rel Data.Counts (under? SettingsKey.timeout.name) s.timeout
  diagnostics : Option.Rel (fun d => LimitsHeld d.under?) (under? SettingsKey.diagnostics.name)
    s.diagnostics
  bindings : Option.Rel (fun d => BindingsHeld h d.under?) (under? SettingsKey.bindings.name) s.bindings

variable {h h' : Heap}

mutual

theorem Image.later {d : Data} {v : Value} (image : Image h d v) (spares : h.Spares h') :
    Image h' d v := by
  match image with
  | .scalar s => exact .scalar s
  | @Image.sequence _ items r held tuple inside =>
    have same := spares.held held
    have elements : h'.items r = h.items r := congrArg Object.items same
    have later : ImageAll h' items (h'.items r) := elements ▸ inside.later spares
    exact .sequence (spares.holds held) ((congrArg Object.kind same).trans tuple) later

theorem ImageAll.later {ds : List Data} {vs : List Value} (images : ImageAll h ds vs)
    (spares : h.Spares h') : ImageAll h' ds vs := by
  match images with
  | .none => exact .none
  | .more first others => exact .more (first.later spares) (others.later spares)

end

theorem ImageAll.element {ds : List Data} {vs : List Value} (images : ImageAll h ds vs) {v : Value}
    (member : v ∈ vs) : ∃ d, Image h d v := by
  match images with
  | .none => cases member
  | .more first others =>
    rcases List.mem_cons.mp member with rfl | later
    · exact ⟨_, first⟩
    · exact others.element later

theorem Image.reaches {d : Data} {v : Value} {s : Ref} (image : Image h d v) (reaches : h.Reaches v s) :
    h.kind s = .tuple := by
  obtain ⟨r, rfl, path⟩ := reaches
  have found : ∃ c, Image h c (.object s) := by
    induction path with
    | refl => exact ⟨d, image⟩
    | tail _ member ih =>
      obtain ⟨c, image⟩ := ih
      cases image with
      | sequence _ _ inside => exact inside.element member
  obtain ⟨c, image⟩ := found
  cases image with
  | sequence _ tuple _ => exact tuple

theorem relWeaken {α β : Type} {R S : α → β → Prop} (weaker : ∀ a b, R a b → S a b)
    {x : Option α} {y : Option β} (rel : Option.Rel R x y) : Option.Rel S x y := by
  cases rel with
  | some holds => exact .some (weaker _ _ holds)
  | none => exact .none

theorem BindingsHeld.later {under? : Text → Option Data} {b : Bindings Value} (spares : h.Spares h')
    (held : BindingsHeld h under? b) : BindingsHeld h' under? b where
  once := held.once
  unheld := held.unheld
  values name other := relWeaken (fun _ _ image => image.later spares) (held.values name other)

theorem Held.later {under? : Text → Option Data} {s : Settings} (spares : h.Spares h')
    (held : Held h under? s) : Held h' under? s where
  timeout := held.timeout
  diagnostics := held.diagnostics
  bindings := relWeaken (fun _ _ held => held.later spares) held.bindings

theorem BindingsHeld.tuples {under? : Text → Option Data} {b : Bindings Value}
    (held : BindingsHeld h under? b) {p : Text × Value} (member : p ∈ b) {r : Ref}
    (reaches : h.Reaches p.2 r) : h.kind r = .tuple := by
  have other : p.1 ≠ unheldName := fun same => held.unheld (same ▸ List.mem_map_of_mem member)
  have image := held.values p.1 other
  rw [Bindings.getOfMem held.once member] at image
  generalize under? p.1 = x at image
  cases image with
  | some image => exact image.reaches reaches

end Settings

end SeqScript
