import SeqScript.Proofs.Settings
import SeqScript.Proofs.SettingsShapes

/-! What reading settings comes to. -/
namespace SeqScript

namespace Settings
open Bindings (unheldName)

inductive Ends {α : Type} (p : α → Prop) (q : SettingsFault → Prop) : Except SettingsFault α → Prop where
  | read {a} (holds : p a) : Ends p q (.ok a)
  | refused {f} (reason : q f) : Ends p q (.error f)

theorem Ends.weaken {α : Type} {p p' : α → Prop} {q q' : SettingsFault → Prop}
    {x : Except SettingsFault α} (ends : Ends p q x) (ok : ∀ a, p a → p' a) (bad : ∀ f, q f → q' f) :
    Ends p' q' x := by
  cases ends with
  | read holds => exact .read (ok _ holds)
  | refused reason => exact .refused (bad _ reason)

def Reads {α : Type} (h : Heap) (m : Reading α) (p : α → Heap → Prop) (q : SettingsFault → Prop) : Prop :=
  Ends (fun a => h.Spares a.2 ∧ p a.1 a.2) q (m.run h)

namespace Reads

variable {α β : Type} {h : Heap} {p : α → Heap → Prop} {q : SettingsFault → Prop}

theorem pure {a : α} (holds : p a h) : Reads h (pure a) p q := .read ⟨.refl h, holds⟩

theorem refuse {f : SettingsFault} (reason : q f) : Reads h (Settings.refuse f) p q := .refused reason

theorem bind {p' : β → Heap → Prop} {m : Reading α} {f : α → Reading β} (first : Reads h m p q)
    (second : ∀ a h', h.Spares h' → p a h' → Reads h' (f a) p' q) : Reads h (m >>= f) p' q := by
  unfold Reads at first ⊢
  rw [StateT.run_bind]
  generalize m.run h = x at first
  cases first with
  | refused reason => exact .refused reason
  | @read a holds =>
    exact (second a.1 a.2 holds.1 holds.2).weaken
      (fun _ later => ⟨holds.1.trans later.1, later.2⟩) fun _ => id

theorem weaken {p' : α → Heap → Prop} {q' : SettingsFault → Prop} {m : Reading α}
    (reads : Reads h m p q) (ok : ∀ a h', p a h' → p' a h') (bad : ∀ f, q f → q' f) :
    Reads h m p' q' := Ends.weaken reads (fun _ holds => ⟨holds.1, ok _ _ holds.2⟩) bad

theorem refuses {q' : SettingsFault → Prop} {m : Reading α} (reads : Reads h m p q)
    (bad : ∀ f, q f → q' f) : Reads h m p q' := reads.weaken (fun _ _ => id) bad

theorem lift {p : α → Prop} {result : Except SettingsFault α} (ends : Ends p q result) :
    Reads h (liftM result : Reading α) (fun a _ => p a) q := by
  cases ends with
  | refused reason => exact .refused reason
  | read holds => exact .read ⟨.refl h, holds⟩

theorem alloc {items : List Data} {vs : List Value} (images : ImageAll h items vs) :
    Reads h (modifyGet fun h => (Value.object (h.alloc (.tuple vs)).1, (h.alloc (.tuple vs)).2))
      (fun v h' => Image h' (.sequence items) v) q := by
  have spares := Heap.Spares.alloc h (.tuple vs)
  have made : (h.alloc (.tuple vs)).2.get (h.alloc (.tuple vs)).1 = .tuple vs := Heap.getAllocNew h _
  have elements : (h.alloc (.tuple vs)).2.items (h.alloc (.tuple vs)).1 = vs := congrArg Object.items made
  have held : (h.alloc (.tuple vs)).2.holds (h.alloc (.tuple vs)).1 = true := by
    simp [Heap.alloc, Heap.holds]
  have inside : ImageAll (h.alloc (.tuple vs)).2 items
      ((h.alloc (.tuple vs)).2.items (h.alloc (.tuple vs)).1) := by
    rw [elements]
    exact images.later spares
  exact .read ⟨spares, .sequence held (congrArg Object.kind made) inside⟩

end Reads

/- The first item with a mapping in it, by its number and the way to the mapping in it. -/
def ItemOffends (items : List Data) (i : Nat) (path : List Nat) : Prop :=
  ∃ before d behind, items = before ++ d :: behind ∧ (∀ c ∈ before, c.Bindable) ∧
    before.length = i ∧ d.Offends path

namespace ItemOffends

variable {d : Data} {items : List Data} {i : Nat} {path : List Nat}

theorem here (offends : d.Offends path) : ItemOffends (d :: items) 0 path :=
  ⟨[], d, items, rfl, List.forall_mem_nil _, rfl, offends⟩

theorem later (first : d.Bindable) (rest : ItemOffends items i path) :
    ItemOffends (d :: items) (i + 1) path := by
  obtain ⟨before, c, behind, rfl, bindable, rfl, offends⟩ := rest
  exact ⟨d :: before, c, behind, rfl, List.forall_mem_cons.mpr ⟨first, bindable⟩, rfl, offends⟩

theorem sequence (first : ItemOffends items i path) : (Data.sequence items).Offends (i :: path) := by
  obtain ⟨before, c, behind, rfl, bindable, rfl, offends⟩ := first
  exact .inside bindable offends

end ItemOffends

def ValueRefused (name : Text) (path : List Nat) (d : Data) (f : SettingsFault) : Prop :=
  ∃ inner, d.Offends inner ∧ f = .variable name (path ++ inner)

def ValuesRefused (name : Text) (path : List Nat) (index : Nat) (ds : List Data)
    (f : SettingsFault) : Prop :=
  ∃ i inner, ItemOffends ds i inner ∧ f = .variable name (path ++ (index + i) :: inner)

theorem ValuesRefused.sequence {name : Text} {path : List Nat} {items : List Data} {f : SettingsFault}
    (refused : ValuesRefused name path 0 items f) : ValueRefused name path (.sequence items) f := by
  obtain ⟨i, inner, offends, rfl⟩ := refused
  exact ⟨i :: inner, offends.sequence, by rw [Nat.zero_add]⟩

theorem ValueRefused.first {name : Text} {path : List Nat} {index : Nat} {d : Data} (rest : List Data)
    {f : SettingsFault} (refused : ValueRefused name (path ++ [index]) d f) :
    ValuesRefused name path index (d :: rest) f := by
  obtain ⟨inner, offends, rfl⟩ := refused
  exact ⟨0, inner, .here offends, by simp⟩

theorem ValuesRefused.later {name : Text} {path : List Nat} {index : Nat} {d : Data}
    {rest : List Data} {f : SettingsFault} (first : d.Bindable)
    (refused : ValuesRefused name path (index + 1) rest f) :
    ValuesRefused name path index (d :: rest) f := by
  obtain ⟨i, inner, offends, rfl⟩ := refused
  exact ⟨i + 1, inner, .later first offends, by rw [Nat.add_assoc, Nat.add_comm 1]⟩

mutual

theorem valueReads (name : Text) (path : List Nat) (d : Data) (h : Heap) :
    Reads h (value name path d) (fun v h' => d.Bindable ∧ Image h' d v) (ValueRefused name path d) := by
  match d with
  | .scalar s => exact .pure ⟨.scalar s, .scalar s⟩
  | .sequence items =>
    have inside := (valuesReads name path 0 items h).refuses fun _ => ValuesRefused.sequence
    exact inside.bind fun _ _ _ read =>
      (Reads.alloc read.2).weaken (fun _ _ image => ⟨.sequence read.1, image⟩) fun _ => id
  | .mapping entries => exact .refuse ⟨[], .mapping entries, by rw [List.append_nil]⟩

theorem valuesReads (name : Text) (path : List Nat) (index : Nat) (ds : List Data) (h : Heap) :
    Reads h (values name path index ds) (fun vs h' => (∀ d ∈ ds, d.Bindable) ∧ ImageAll h' ds vs)
      (ValuesRefused name path index ds) := by
  match ds with
  | [] => exact .pure ⟨List.forall_mem_nil _, .none⟩
  | d :: rest =>
    have first := (valueReads name (path ++ [index]) d h).refuses fun _ => ValueRefused.first rest
    refine first.bind fun v h' _ here => ?_
    have others := (valuesReads name path (index + 1) rest h').refuses fun _ => ValuesRefused.later here.1
    exact others.bind fun _ _ spares others => .pure
      ⟨List.forall_mem_cons.mpr ⟨here.1, others.1⟩, .more (here.2.later spares) others.2⟩

end

def BehindFrom (tupleBehind : Bool) (entries : List (Text × Data)) : Prop :=
  tupleBehind = true ∨ Behind entries

def HidesFrom (tupleBehind : Bool) (entries : List (Text × Data)) : Prop :=
  ∃ before d behind, entries = before ++ (text "length", d) :: behind ∧ BehindFrom tupleBehind before

theorem behindFalse (entries : List (Text × Data)) : BehindFrom false entries = Behind entries := by
  simp [BehindFrom]

theorem hidesFalse (entries : List (Text × Data)) : HidesFrom false entries = Hides entries := by
  simp only [HidesFrom, Hides, behindFalse]

theorem putsBehindIff {name : Text} {d : Data} :
    putsBehind name d = true ↔ ∃ items, (unheldName, .sequence items) = (name, d) := by
  cases d with
  | sequence items => simpa [putsBehind] using eq_comm
  | _ => simp [putsBehind]

theorem behindCons {tupleBehind : Bool} {name : Text} {d : Data} {rest : List (Text × Data)} :
    BehindFrom tupleBehind ((name, d) :: rest) ↔
      BehindFrom (tupleBehind || putsBehind name d) rest := by
  simp only [BehindFrom, Behind, List.mem_cons, exists_or, Bool.or_eq_true, putsBehindIff, or_assoc]

theorem hidesCons {tupleBehind : Bool} {name : Text} {d : Data} {rest : List (Text × Data)} :
    HidesFrom tupleBehind ((name, d) :: rest) ↔
      (tupleBehind = true ∧ name = text "length") ∨
        HidesFrom (tupleBehind || putsBehind name d) rest := by
  constructor
  · intro ⟨before, c, behind, same, inFront⟩
    cases before with
    | nil =>
      cases same
      exact .inl ⟨inFront.resolve_right fun ⟨_, never⟩ => List.not_mem_nil never, rfl⟩
    | cons e before =>
      cases same
      exact .inr ⟨before, c, behind, rfl, behindCons.mp inFront⟩
  · rintro (⟨inFront, rfl⟩ | ⟨before, c, behind, rfl, inFront⟩)
    · exact ⟨[], d, rest, rfl, .inl inFront⟩
    · exact ⟨(name, d) :: before, c, behind, rfl, behindCons.mpr inFront⟩

theorem hidesNothing {tupleBehind : Bool} : ¬ HidesFrom tupleBehind [] := by
  intro ⟨before, d, behind, same, _⟩
  simp at same

def VariableRefused (tupleBehind : Bool) (entries : List (Text × Data)) (f : SettingsFault) : Prop :=
  ∃ before e behind, entries = before ++ e :: behind ∧ (∀ c ∈ before, c.2.Bindable) ∧
    ¬ HidesFrom tupleBehind before ∧ BindingRefused (BehindFrom tupleBehind before) e f

theorem VariableRefused.here {tupleBehind : Bool} {e : Text × Data} {rest : List (Text × Data)}
    {f : SettingsFault} (refused : BindingRefused (BehindFrom tupleBehind []) e f) :
    VariableRefused tupleBehind (e :: rest) f :=
  ⟨[], e, rest, rfl, List.forall_mem_nil _, hidesNothing, refused⟩

theorem ValueRefused.variable (tupleBehind : Bool) {name : Text} {d : Data}
    (rest : List (Text × Data)) {f : SettingsFault} (refused : ValueRefused name [] d f) :
    VariableRefused tupleBehind ((name, d) :: rest) f := by
  obtain ⟨inner, offends, rfl⟩ := refused
  exact .here (.mapping offends)

theorem VariableRefused.later {tupleBehind : Bool} {name : Text} {d : Data}
    {rest : List (Text × Data)} {f : SettingsFault} (bindable : d.Bindable)
    (free : ¬ (tupleBehind = true ∧ name = text "length"))
    (refused : VariableRefused (tupleBehind || putsBehind name d) rest f) :
    VariableRefused tupleBehind ((name, d) :: rest) f := by
  obtain ⟨before, e, behind, rfl, others, open_, refused⟩ := refused
  have unhidden : ¬ HidesFrom tupleBehind ((name, d) :: before) := by
    rw [hidesCons]
    exact fun hides => hides.elim free open_
  rw [← behindCons] at refused
  exact ⟨(name, d) :: before, e, behind, rfl, List.forall_mem_cons.mpr ⟨bindable, others⟩, unhidden,
    refused⟩

theorem VariableRefused.binding {entries : List (Text × Data)} {f : SettingsFault}
    (refused : VariableRefused false entries f) : KeyRefused .bindings (.mapping entries) f := by
  obtain ⟨before, e, behind, rfl, bindable, free, refused⟩ := refused
  rw [hidesFalse] at free
  rw [behindFalse] at refused
  exact .binding bindable free refused

def Bound (h : Heap) : List (Text × Data) → List (Text × Value) → Prop :=
  List.Forall₂ fun e p => e.1 = p.1 ∧ Image h e.2 p.2

theorem variableEntriesRead (tupleBehind : Bool) (entries : List (Text × Data)) (h : Heap) :
    Reads h (variableEntries tupleBehind entries)
      (fun b h' => (∀ e ∈ entries, e.2.Bindable) ∧ ¬ HidesFrom tupleBehind entries ∧ Bound h' entries b)
      (VariableRefused tupleBehind entries) := by
  induction entries generalizing tupleBehind h with
  | nil => exact .pure ⟨List.forall_mem_nil _, hidesNothing, .nil⟩
  | cons e rest ih =>
    obtain ⟨name, d⟩ := e
    have first := (valueReads name [] d h).refuses fun _ => ValueRefused.variable tupleBehind rest
    refine first.bind fun v h' _ here => ?_
    dsimp only
    split
    · rename_i hidden
      obtain ⟨inFront, rfl⟩ : tupleBehind = true ∧ name = text "length" := by simpa using hidden
      exact .refuse (.here (.hidden here.1 (.inl inFront)))
    · rename_i shown
      have free : ¬ (tupleBehind = true ∧ name = text "length") := by simpa using shown
      have others := (ih (tupleBehind || putsBehind name d) h').refuses fun _ => VariableRefused.later here.1 free
      refine others.bind fun b h'' spares others => ?_
      have unhidden : ¬ HidesFrom tupleBehind ((name, d) :: rest) := by
        rw [hidesCons]
        exact fun hides => hides.elim free others.2.1
      exact .pure ⟨List.forall_mem_cons.mpr ⟨here.1, others.1⟩, unhidden,
        .cons ⟨rfl, here.2.later spares⟩ others.2.2⟩

theorem boundGet {h : Heap} {entries : List (Text × Data)} {pairs : List (Text × Value)}
    (bound : Bound h entries pairs) {b : Bindings Data} {c : Bindings Value}
    (before : ∀ name, Option.Rel (Image h) (b.get? name) (c.get? name)) (name : Text) :
    Option.Rel (Image h) ((entries.foldl (fun b p => b.set p.1 p.2) b).get? name)
      ((pairs.foldl (fun c p => c.set p.1 p.2) c).get? name) := by
  induction bound generalizing b c with
  | nil => exact before name
  | cons first others ih =>
    refine ih fun other => ?_
    rw [Bindings.getSet, Bindings.getSet, first.1]
    split
    · exact .some first.2
    · exact before other

theorem readVariablesRead (d : Data) (h : Heap) :
    Reads h (readVariables d)
      (fun b h' => Allowed .bindings d ∧ (∀ entries, d = .mapping entries → ¬ Hides entries) ∧
        BindingsHeld h' d.under? b)
      (KeyRefused .bindings d) := by
  cases d with
  | scalar s => exact .refuse (.noBindings nofun)
  | sequence items => exact .refuse (.noBindings nofun)
  | mapping entries =>
    have all := (variableEntriesRead false entries h).refuses fun _ => VariableRefused.binding
    refine all.bind fun b h' _ read => ?_
    obtain ⟨bindable, shown, bound⟩ := read
    rw [hidesFalse] at shown
    have distinct := Bindings.distinctHeld (Bindings.distinctOfPairs b)
    refine .pure ⟨.bindings bindable, fun _ same => Data.mapping.inj same ▸ shown, distinct,
      Bindings.notHeld _, fun name other => ?_⟩
    rw [Bindings.getHeld _ other]
    exact boundGet bound (fun _ => .none) name

theorem LimitsHeld.set {b : Bindings Data} {l : LimitSettings} {key : LimitKey} {d : Data} {n : Nat}
    (held : LimitsHeld (fun name => b.get? name) l) (counts : d.Counts n) :
    LimitsHeld (fun name => (b.set key.name d).get? name) (setLimit l key n) := by
  cases key with
  | maxElements =>
    constructor <;> rw [getNamed LimitKey.found]
    · exact .some counts
    · exact held.maxLength
  | maxLength =>
    constructor <;> rw [getNamed LimitKey.found]
    · exact held.maxElements
    · exact .some counts

theorem limitEntriesEnd {l : LimitSettings} {b : Bindings Data} (entries : List (Text × Data))
    (held : LimitsHeld (fun name => b.get? name) l) :
    Ends (fun l => (∀ e ∈ entries, LimitAllowed e) ∧
        LimitsHeld (fun name => (entries.foldl (fun b p => b.set p.1 p.2) b).get? name) l)
      (fun f => FirstOf LimitAllowed (LimitRefused · f) entries) (limitEntries l entries) := by
  induction entries generalizing l b with
  | nil => exact .read ⟨List.forall_mem_nil _, held⟩
  | cons e rest ih =>
    obtain ⟨name, d⟩ := e
    rw [limitEntries]
    split
    · rename_i found
      exact .refused (.here (.unknown (nameNotFound LimitKey.found found)))
    · rename_i key found
      obtain rfl := nameOfFound found
      split
      · rename_i none
        exact .refused (.here (.limit (Data.uncounted none)))
      · rename_i n positive
        have counts := Data.positiveCounts positive
        have here : LimitAllowed (key.name, d) := ⟨key, rfl, n, counts⟩
        exact (ih (held.set counts)).weaken
          (fun _ later => ⟨List.forall_mem_cons.mpr ⟨here, later.1⟩, later.2⟩) fun _ => .later here

theorem readLimitsEnd (d : Data) :
    Ends (fun l => Allowed .diagnostics d ∧ LimitsHeld d.under? l) (KeyRefused .diagnostics d)
      (readLimits d) := by
  cases d with
  | scalar s => exact .refused (.noLimits nofun)
  | sequence items => exact .refused (.noLimits nofun)
  | mapping entries =>
    have nothing : LimitsHeld (fun name => Bindings.get? name []) ⟨none, none⟩ := ⟨.none, .none⟩
    exact (limitEntriesEnd entries nothing).weaken
      (fun _ read => ⟨.diagnostics read.1, read.2⟩) fun _ => .limit

theorem entryReads {s : Settings} {b : Bindings Data} {h : Heap} (key : SettingsKey) (d : Data)
    (held : Held h (fun name => b.get? name) s) :
    Reads h (entry s key d)
      (fun s h' => Readable (key.name, d) ∧ Held h' (fun name => (b.set key.name d).get? name) s)
      (KeyRefused key d) := by
  cases key with
  | timeout =>
    simp only [entry]
    split
    · rename_i n positive
      have counts := Data.positiveCounts positive
      refine .pure ⟨⟨.timeout, rfl, .timeout counts, fun _ never => by cases never⟩, ?_⟩
      constructor <;> rw [getNamed SettingsKey.found]
      · exact .some counts
      · exact held.diagnostics
      · exact held.bindings
    · rename_i none
      exact .refuse (.timeout (Data.uncounted none))
  | diagnostics =>
    refine (Reads.lift (readLimitsEnd d)).bind fun l h' spares read => ?_
    refine .pure ⟨⟨.diagnostics, rfl, read.1, fun _ never => by cases never⟩, ?_⟩
    have held := held.later spares
    constructor <;> rw [getNamed SettingsKey.found]
    · exact held.timeout
    · exact .some read.2
    · exact held.bindings
  | bindings =>
    refine (readVariablesRead d h).bind fun c h' spares read => ?_
    refine .pure ⟨⟨.bindings, rfl, read.1, fun entries _ => read.2.1 entries⟩, ?_⟩
    have held := held.later spares
    constructor <;> rw [getNamed SettingsKey.found]
    · exact held.timeout
    · exact held.diagnostics
    · exact .some read.2.2

theorem entriesRead {s : Settings} {b : Bindings Data} {h : Heap} (es : List (Text × Data))
    (held : Held h (fun name => b.get? name) s) :
    Reads h (entries s es)
      (fun s h' => (∀ e ∈ es, Readable e) ∧
        Held h' (fun name => (es.foldl (fun b p => b.set p.1 p.2) b).get? name) s)
      (fun f => FirstOf Readable (EntryRefused · f) es) := by
  induction es generalizing s b h with
  | nil => exact .pure ⟨List.forall_mem_nil _, held⟩
  | cons e rest ih =>
    obtain ⟨name, d⟩ := e
    rw [entries]
    split
    · rename_i found
      exact .refuse (.here (.unknown (nameNotFound SettingsKey.found found)))
    · rename_i key found
      obtain rfl := nameOfFound found
      have first := (entryReads key d held).refuses fun _ => EntryRefused.known
      refine (first.refuses fun _ refused => .here refused).bind fun _ _ _ here => ?_
      exact (ih here.2).weaken (fun _ _ others => ⟨List.forall_mem_cons.mpr ⟨here.1, others.1⟩, others.2⟩)
        fun _ => .later here.1

theorem ofDataReads (d : Data) (h : Heap) :
    Reads h (ofData d) (fun s h' => (Valid d ∧ ¬ Hidden d) ∧ Held h' d.under? s) (Refused d) := by
  have nothing {under? : Text → Option Data} (absent : ∀ name, under? name = none) :
      Held h under? empty := by
    constructor <;> rw [absent] <;> exact .none
  unfold ofData
  split
  · exact .pure ⟨⟨.inl rfl, fun ⟨_, _, same, _⟩ => by cases same⟩, nothing fun _ => rfl⟩
  · rename_i es
    have read := entriesRead (b := []) es (nothing fun _ => rfl)
    exact read.weaken (fun _ _ read => ⟨validIfReadable read.1, read.2⟩) fun _ => .entry
  · rename_i given other
    exact .refuse (.notMapping given other)

end Settings

def SettingsFault.place? : SettingsFault → Option Text
  | .unreadable | .malformed | .notMapping => none
  | .unknownKey key | .unknownLimit key => some key
  | .timeout => some SettingsKey.timeout.name
  | .diagnosticsNotMapping => some SettingsKey.diagnostics.name
  | .limit key => some (SettingsKey.diagnostics.name ++ text "." ++ key.name)
  | .variablesNotMapping => some SettingsKey.bindings.name
  | .variable name path => some (SettingsKey.bindings.name ++ text "." ++ name ++ pathText path)
  | .unassignable name => some name

theorem SettingsFault.placeNamed {f : SettingsFault} {place : Text} (about : f.place? = some place) :
    place <:+: f.message := by
  match f, about with
  | .unknownKey key, rfl => exact ⟨invalid (text "unknown key "), [], by simp [message, invalid]⟩
  | .timeout, rfl => exact ⟨invalid [], text " must be a positive integer", rfl⟩
  | .diagnosticsNotMapping, rfl => exact ⟨invalid [], text " must be a mapping", rfl⟩
  | .unknownLimit key, rfl =>
    exact ⟨invalid (text "unknown diagnostics key "), [], by simp [message, invalid]⟩
  | .limit key, rfl => exact ⟨invalid [], text " must be a positive integer", by cases key <;> rfl⟩
  | .variablesNotMapping, rfl => exact ⟨invalid [], text " must be a mapping", rfl⟩
  | .variable name path, rfl =>
    have key : text "variables." = SettingsKey.bindings.name ++ text "." := rfl
    exact ⟨invalid [], text " must be a scalar or a sequence", by simp [message, invalid, key]⟩
  | .unassignable name, rfl =>
    exact ⟨text "Cannot set property ", text " of #<" ++ (SequenceKind.tuple.className ++
      text "> which has only a getter"), by simp [message, SequenceKind.refusal]⟩

namespace Settings

/- Data can be read exactly if they have one of the shapes of settings and hide no variable. The
settings then have each entry with its value and nothing else, with tuples for the sequences of the
variables, and no list is within reach. Otherwise the message names the first entry, depth first, that
is refused. -/
theorem readExactly (d : Data) (h : Heap) :
    ((∃ s h', read d h = .ok (s, h')) ↔ Valid d ∧ ¬ Hidden d) ∧
    (∀ s h', read d h = .ok (s, h') → h.Spares h' ∧ Held h' d.under? s ∧
      ∀ b ∈ s.bindings, ∀ p ∈ b, ∀ r, h'.Reaches p.2 r → h'.kind r = .tuple) ∧
    ∀ f, read d h = .error f → Refused d f ∧ ∀ place ∈ f.place?, place <:+: f.message := by
  have ends := ofDataReads d h
  unfold Reads at ends
  unfold read
  generalize (ofData d).run h = outcome at ends ⊢
  cases ends with
  | @read result holds =>
    obtain ⟨spares, valid, held⟩ := holds
    refine ⟨⟨fun _ => valid, fun _ => ⟨_, _, rfl⟩⟩, fun s h' same => ?_, nofun⟩
    cases same
    refine ⟨spares, held, fun b bound p member r reaches => ?_⟩
    have variables_ := held.bindings
    rw [Option.mem_def.mp bound] at variables_
    generalize d.under? SettingsKey.bindings.name = x at variables_
    cases variables_ with
    | some bound => exact bound.tuples member reaches
  | refused reason =>
    refine ⟨⟨nofun, fun valid => absurd valid reason.invalid⟩, nofun, fun f same => ?_⟩
    cases same
    exact ⟨reason, fun place about => SettingsFault.placeNamed about⟩

def settingsWith (y : Data) : Data :=
  .mapping [(text "timeout", .scalar (.number (.ofNat 5))), (text "variables", .mapping
    [(text "x", .sequence [.none, .sequence []]), (text "y", y)])]

theorem nestedRead :
    (∃ s h', read (settingsWith .none) .empty = .ok (s, h') ∧ s.timeout = some 5 ∧
      Held h' (settingsWith .none).under? s) ∧
    ∃ f, read (settingsWith (.sequence [.none, .mapping []])) .empty = .error f ∧
      f.message = text "Invalid configuration: variables.y[1] must be a scalar or a sequence" ∧
      Refused (settingsWith (.sequence [.none, .mapping []])) f := by
  have five : (read (settingsWith .none) .empty).toOption.map (·.1.timeout) = some (some 5) := by
    decide +kernel
  have second : (read (settingsWith (.sequence [.none, .mapping []])) .empty).map (fun _ => ()) =
      .error (.variable (text "y") [1]) := by
    decide +kernel
  constructor
  · cases reads : read (settingsWith .none) .empty with
    | error f => simp [reads, Except.toOption] at five
    | ok result =>
      have timeout : result.1.timeout = some 5 := by simpa [reads, Except.toOption] using five
      exact ⟨_, _, rfl, timeout, ((readExactly _ _).2.1 _ _ reads).2.1⟩
  · cases refuses : read (settingsWith (.sequence [.none, .mapping []])) .empty with
    | ok result => simp [refuses, Except.map] at second
    | error f =>
      obtain rfl : f = .variable (text "y") [1] := by simpa [refuses, Except.map] using second
      exact ⟨_, rfl, rfl, ((readExactly _ _).2.2 _ refuses).1⟩

def hiddenLength : Data :=
  .mapping [(text "variables", .mapping
    [(Bindings.unheldName, .sequence [.scalar (.number (.ofNat 1))]),
      (text "length", .scalar (.number (.ofNat 5)))])]

theorem hiddenUnread : Valid hiddenLength ∧
    read hiddenLength .empty = .error (.unassignable (text "length")) := by
  constructor
  · refine .inr ⟨_, rfl, List.forall_mem_singleton.mpr ⟨.bindings, rfl, .bindings fun e member => ?_⟩⟩
    rcases List.mem_pair.mp member with rfl | rfl
    · exact .sequence (List.forall_mem_singleton.mpr (.scalar _))
    · exact .scalar _
  · rfl

end Settings

end SeqScript
