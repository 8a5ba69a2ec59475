import SeqScript.Bindings
import SeqScript.Value.Scalar

/-!
Message templates. A placeholder is a name between braces. What is inserted is never scanned
again, a name without a value leaves nothing unless it has an inherited text, and a template with
an open brace that is not closed is no template: it stays as it is.
-/
namespace SeqScript.Template

def openBrace : CodeUnit := unit '\x7b'
def closeBrace : CodeUnit := unit '\x7d'

def hole (name : String) : Text := openBrace :: text name ++ [closeBrace]

def nativeCode (name : String) : Text :=
  text "function " ++ text name ++ text "() \x7b [native code] \x7d"

/- The names that have a text where the values have none. -/
def inherited : Bindings Text :=
  (text "constructor", nativeCode "Object") :: (Bindings.unheldName, text "[object Object]") ::
    ["__defineGetter__", "__defineSetter__", "hasOwnProperty", "__lookupGetter__",
      "__lookupSetter__", "isPrototypeOf", "propertyIsEnumerable", "toString", "valueOf",
      "toLocaleString"].map fun name => (text name, nativeCode name)

def shown (values : Bindings Scalar) (name : Text) : Text :=
  match values.get? name with
  | some v => v.plain
  | none => (inherited.get? name).getD []

/- Fills a template from left to right. The second argument is the part of a placeholder's name
that was already read; nothing is returned when a placeholder stays open. -/
def fill (values : Bindings Scalar) : Option Text → Text → Option Text
  | none, [] => some []
  | some _, [] => none
  | none, u :: rest =>
    if u = openBrace then fill values (some []) rest
    else (fill values none rest).map (u :: ·)
  | some name, u :: rest =>
    if u = closeBrace then (fill values none rest).map (shown values name ++ ·)
    else fill values (some (name ++ [u])) rest

def render (template : Text) (values : Bindings Scalar) : Text :=
  (fill values none template).getD template

end SeqScript.Template
