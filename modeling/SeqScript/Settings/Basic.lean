import SeqScript.Settings.Data
import SeqScript.Run.Result

/-!
Settings: what a file of settings says about a run. Reading them goes through a mapping in order
and stops at the first entry that is not allowed. Configured sequences become tuples, so no run
can change what the next one finds.
-/
namespace SeqScript

structure LimitSettings where
  maxElements : Option Nat
  maxLength : Option Nat
  deriving DecidableEq, Repr

structure Settings where
  timeout : Option Nat
  diagnostics : Option LimitSettings
  bindings : Option (Bindings Value)
  deriving DecidableEq, Repr

inductive SettingsKey where
  | timeout | diagnostics | bindings
  deriving DecidableEq, Repr

inductive LimitKey where
  | maxElements | maxLength
  deriving DecidableEq, Repr

namespace SettingsKey

def name : SettingsKey → Text
  | .timeout => text "timeout"
  | .diagnostics => text "diagnostics"
  | .bindings => text "variables"

def all : List SettingsKey := [.timeout, .diagnostics, .bindings]

def ofName? (name : Text) : Option SettingsKey := all.find? fun k => k.name == name

end SettingsKey

namespace LimitKey

def name : LimitKey → Text
  | .maxElements => text "maxElements"
  | .maxLength => text "maxLength"

def all : List LimitKey := [.maxElements, .maxLength]

def ofName? (name : Text) : Option LimitKey := all.find? fun k => k.name == name

end LimitKey

inductive SettingsFault where
  | unreadable
  | malformed
  | notMapping
  | unknownKey (key : Text)
  | timeout
  | diagnosticsNotMapping
  | unknownLimit (key : Text)
  | limit (key : LimitKey)
  | variablesNotMapping
  | variable (name : Text) (path : List Nat)
  -- The variable would take the place of what a tuple behind the variables has for itself.
  | unassignable (name : Text)
  deriving DecidableEq, Repr

namespace SettingsFault

def pathText (path : List Nat) : Text :=
  path.flatMap fun i => text "[" ++ Text.ofNat i ++ text "]"

def invalid (reason : Text) : Text := text "Invalid configuration: " ++ reason

def message : SettingsFault → Text
  | .unreadable => invalid (text "failed to read file")
  | .malformed => invalid (text "invalid YAML")
  | .notMapping => invalid (text "must be a mapping")
  | .unknownKey key => invalid (text "unknown key " ++ key)
  | .timeout => invalid (text "timeout must be a positive integer")
  | .diagnosticsNotMapping => invalid (text "diagnostics must be a mapping")
  | .unknownLimit key => invalid (text "unknown diagnostics key " ++ key)
  | .limit key => invalid (text "diagnostics." ++ key.name ++ text " must be a positive integer")
  | .variablesNotMapping => invalid (text "variables must be a mapping")
  | .variable name path =>
    invalid (text "variables." ++ name ++ pathText path ++ text " must be a scalar or a sequence")
  | .unassignable name => SequenceKind.refusal .tuple name

def name : SettingsFault → Text
  | .unassignable _ => text "TypeError"
  | _ => text "Error"

end SettingsFault

namespace Settings

abbrev Reading := StateT Heap (Except SettingsFault)

def refuse {α : Type} (f : SettingsFault) : Reading α := throw f

def empty : Settings := ⟨none, none, none⟩

mutual

def value (name : Text) (path : List Nat) : Data → Reading Value
  | .scalar s => return .scalar s
  | .sequence items => do
    let vs ← values name path 0 items
    modifyGet fun h =>
      let (r, h) := h.alloc (.tuple vs)
      (.object r, h)
  | .mapping _ => refuse (.variable name path)

def values (name : Text) (path : List Nat) (index : Nat) : List Data → Reading (List Value)
  | [] => return []
  | d :: rest => do
    let v ← value name (path ++ [index]) d
    let vs ← values name path (index + 1) rest
    return v :: vs

end

/- Under the one name that is not held a sequence is put behind all the variables. -/
def putsBehind (name : Text) : Data → Bool
  | .sequence _ => name == Bindings.unheldName
  | _ => false

def variableEntries (tupleBehind : Bool) : List (Text × Data) → Reading (Bindings Value)
  | [] => return []
  | (name, d) :: rest => do
    let v ← value name [] d
    if tupleBehind && name == text "length" then refuse (.unassignable name)
    let more ← variableEntries (tupleBehind || putsBehind name d) rest
    return (name, v) :: more

def readVariables : Data → Reading (Bindings Value)
  | .mapping entries => do return Bindings.held (.ofPairs (← variableEntries false entries))
  | _ => refuse .variablesNotMapping

def setLimit (limits : LimitSettings) (key : LimitKey) (n : Nat) : LimitSettings :=
  match key with
  | .maxElements => { limits with maxElements := some n }
  | .maxLength => { limits with maxLength := some n }

def limitEntries (limits : LimitSettings) : List (Text × Data) → Except SettingsFault LimitSettings
  | [] => .ok limits
  | (name, d) :: rest =>
    match LimitKey.ofName? name with
    | none => .error (.unknownLimit name)
    | some key =>
      match d.positive? with
      | none => .error (.limit key)
      | some n => limitEntries (setLimit limits key n) rest

def readLimits : Data → Except SettingsFault LimitSettings
  | .mapping entries => limitEntries ⟨none, none⟩ entries
  | _ => .error .diagnosticsNotMapping

def entry (s : Settings) (key : SettingsKey) (d : Data) : Reading Settings := do
  match key with
  | .timeout =>
    match d.positive? with
    | some n => return { s with timeout := some n }
    | none => refuse .timeout
  | .diagnostics =>
    let limits ← liftM (readLimits d)
    return { s with diagnostics := some limits }
  | .bindings =>
    let bindings ← readVariables d
    return { s with bindings := some bindings }

def entries (s : Settings) : List (Text × Data) → Reading Settings
  | [] => return s
  | (name, d) :: rest =>
    match SettingsKey.ofName? name with
    | none => refuse (.unknownKey name)
    | some key => do entries (← entry s key d) rest

def ofData : Data → Reading Settings
  | .scalar .none => return empty
  | .mapping es => entries empty es
  | _ => refuse .notMapping

def read (d : Data) (h : Heap) : Except SettingsFault (Settings × Heap) := (ofData d).run h

def limits (s : Settings) : Limits :=
  match s.diagnostics with
  | none => .standard
  | some l =>
    ⟨(l.maxElements.map Int.ofNat).getD Limits.standard.maxElements,
      (l.maxLength.map Int.ofNat).getD Limits.standard.maxLength⟩

def context {σ : Type} (s : Settings) (domain : Domain) (onLog : Option (Listener σ)) : Context σ :=
  { Context.plain domain with
    listener := fun kind => if kind = .logged then onLog else none
    timeout := s.timeout.map Number.ofNat
    limits := s.limits }

end Settings

end SeqScript
