import SeqScript.Tree.Printer

/-!
Sinks for printed pieces. A collecting sink keeps every piece. A bounded sink keeps pieces up to a
number and fails on the next one; what it holds then stays.
-/
namespace SeqScript.Sink

abbrev Collecting (ε : Type) := ExceptT ε (StateM (List Text))

def collect (piece : Text) : StateM (List Text) Unit := modify (· ++ [piece])

def bounded {ε : Type} (limit : Nat) (full : ε) (piece : Text) : Collecting ε Unit := do
  if (← get).length < limit then collect piece else throw full

end SeqScript.Sink

namespace SeqScript.Node

def collected (n : Node) : List Text := ((n.printTo Sink.collect).run []).2

def bounded {ε : Type} (n : Node) (limit : Nat) (full : ε) : Except ε Unit × List Text :=
  ((n.printTo (Sink.bounded limit full)).run).run []

end SeqScript.Node
