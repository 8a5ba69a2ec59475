import SeqScript.Proofs.Tree.Derivation

/-! What the parser accepts is derivable. Every state of the parser demands something of the tokens
that are left, and a token that leads to a state meets the first demand of the state before it. -/
namespace SeqScript.Parser

def Derivable (s : Symbol) (ts rest : List Token) : Prop := Nonempty (Derivation s ts rest)

def LinesLeft (ts : List Token) : Prop :=
  ∃ us e rest, Derivable .lines ts us ∧ Derivable .newlines us (e :: rest) ∧ e.kind = .endOfInput

def Base.Closes : Base → List Token → Prop
  | .lone, _ => True
  | .statement _, ts | .assignment _ _ _, ts => LinesLeft ts

def Closes (base : Base) : List Frame → List Token → Prop
  | [], ts => base.Closes ts
  | .subscript _ _ :: outer, ts => ∃ c us vs, Derivable .newlines ts (c :: us) ∧
      c.kind = .closeBracket ∧ Derivable .subscripts us vs ∧ Closes base outer vs
  | .items opening _ _ _ :: outer, ts => ∃ us vs c ws xs, Derivable .newlines ts us ∧
      Derivable .moreItems us vs ∧ Derivable .lastComma vs (c :: ws) ∧
      c.kind = opening.closer.kind ∧ Derivable .subscripts ws xs ∧ Closes base outer xs

namespace Nest

def Operand (nest : Nest) (ts : List Token) : Prop :=
  ∃ us, Derivable .expr ts us ∧ Closes nest.base nest.frames us

def Value (nest : Nest) (ts : List Token) : Prop :=
  ∃ us, Derivable .subscripts ts us ∧ Closes nest.base nest.frames us

def Name (nest : Nest) (ts : List Token) : Prop :=
  NoCall ts ∧ nest.Value ts ∨ ∃ o us c vs, ts = o :: us ∧ o.kind = .openParen ∧
    Derivable .items us (c :: vs) ∧ c.kind = .closeParen ∧ nest.Value vs

def Item (nest : Nest) (ts : List Token) : Prop :=
  match nest.frames with
  | .items opening _ _ outer :: rest => ∃ c us, Derivable .items ts (c :: us) ∧
      c.kind = opening.closer.kind ∧ Value ⟨nest.base, rest, outer⟩ us
  | _ => ∃ us, Derivable .newlines ts us ∧ nest.Operand us

end Nest

def State.Demands : State → List Token → Prop
  | .between _, ts => ∃ rest, Derivable .script ts rest
  | .operand nest, ts => nest.Operand ts
  | .item nest, ts => nest.Item ts
  | .target before n span, ts =>
    (∃ a us, ts = a :: us ∧ a.kind = .assign ∧
      (Base.assignment before n span.start).nest.Operand us) ∨
    (Base.statement before).nest.Name ts
  | .name nest _ _, ts => nest.Name ts
  | .value nest _, ts => nest.Value ts
  | .spaced nest _, ts => Closes nest.base nest.frames ts
  | .script _ _, _ | .lone _, _ => True

variable {s : State} {t : Token} {ts : List Token}

theorem finishStatementDemands {before : List Statement} {statement : Statement}
    (moved : finishStatement before statement t = .ok s) (demands : s.Demands ts) :
    LinesLeft (t :: ts) := by
  unfold finishStatement at moved
  split at moved
  · rename_i newline
    cases moved
    obtain ⟨rest, ⟨d⟩⟩ := demands
    cases d with
    | blank before stop => exact ⟨_, _, _, ⟨.noLine⟩, ⟨.newline newline before⟩, stop⟩
    | script before first others behind stop =>
      exact ⟨_, _, _, ⟨.line newline before first others⟩, ⟨behind⟩, stop⟩
  · rename_i stop
    exact ⟨_, _, ts, ⟨.noLine⟩, ⟨.noNewline⟩, stop⟩
  · cases moved

theorem baseFinishDemands {base : Base} {e : Expr} (moved : base.finish e t = .ok s)
    (demands : s.Demands ts) : base.Closes (t :: ts) := by
  cases base with
  | lone => trivial
  | statement before => exact finishStatementDemands moved demands
  | assignment before target start => exact finishStatementDemands moved demands

theorem closesBehindNewline {base : Base} {f : Frame} {outer : List Frame}
    (newline : t.kind = .newline) (closes : Closes base (f :: outer) ts) :
    Closes base (f :: outer) (t :: ts) := by
  cases f with
  | subscript =>
    obtain ⟨c, us, vs, ⟨blank⟩, others⟩ := closes
    exact ⟨c, us, vs, ⟨.newline newline blank⟩, others⟩
  | items =>
    obtain ⟨us, vs, c, ws, xs, ⟨blank⟩, others⟩ := closes
    exact ⟨us, vs, c, ws, xs, ⟨.newline newline blank⟩, others⟩

theorem finishDemands {base : Base} {frames : List Frame} {e : Expr}
    (moved : finish base frames e t = .ok s) (demands : s.Demands ts) :
    Closes base frames (t :: ts) := by
  unfold finish at moved
  split at moved
  · exact baseFinishDemands moved demands
  · split at moved
    · rename_i closer
      cases moved
      obtain ⟨us, behind, closes⟩ := demands
      exact ⟨t, ts, us, ⟨.noNewline⟩, closer, behind, closes⟩
    split at moved
    · rename_i newline
      cases moved
      exact closesBehindNewline newline demands
    · cases moved
  · split at moved
    · rename_i closer
      cases moved
      obtain ⟨us, behind, closes⟩ := demands
      exact ⟨_, _, t, ts, us, ⟨.noNewline⟩, ⟨.noMore⟩, ⟨.noComma⟩, closer, behind, closes⟩
    split at moved
    · rename_i comma
      cases moved
      obtain ⟨c, us, ⟨d⟩, closer, vs, behind, closes⟩ := demands
      cases d with
      | noItem before =>
        exact ⟨_, _, c, us, vs, ⟨.noNewline⟩, ⟨.noMore⟩, ⟨.comma comma before⟩, closer, behind, closes⟩
      | items before first between others last =>
        exact ⟨_, _, c, us, vs, ⟨.noNewline⟩, ⟨.more comma before first between others⟩, ⟨last⟩,
          closer, behind, closes⟩
    split at moved
    · rename_i newline
      cases moved
      exact closesBehindNewline newline demands
    · cases moved

theorem behindValueDemands {nest : Nest} {e : Expr} (moved : behindValue nest e t = .ok s)
    (demands : s.Demands ts) : nest.Value (t :: ts) := by
  unfold behindValue at moved
  split at moved
  · rename_i opener
    cases moved
    obtain ⟨us, ⟨before⟩, vs, ⟨index⟩, c, ws, xs, ⟨blank⟩, closer, ⟨others⟩, closes⟩ := demands
    exact ⟨xs, ⟨.subscript opener before index blank closer others⟩, closes⟩
  · exact ⟨_, ⟨.noSubscript⟩, finishDemands moved demands⟩

theorem behindNameDemands {nest : Nest} {name : Text} {span : Span}
    (moved : behindName nest name span t = .ok s) (demands : s.Demands ts) :
    nest.Name (t :: ts) := by
  unfold behindName at moved
  split at moved
  · rename_i opener
    cases moved
    obtain ⟨c, us, inner, closer, value⟩ := demands
    exact .inr ⟨t, ts, c, us, rfl, opener, inner, closer, value⟩
  · rename_i other
    refine .inl ⟨fun u head => ?_, behindValueDemands moved demands⟩
    cases Option.some.inj head
    exact other

theorem operandOf {nest : Nest} {us : List Token} (primary : Derivation .primary ts us)
    (value : nest.Value us) : nest.Operand ts := by
  obtain ⟨vs, ⟨behind⟩, closes⟩ := value
  exact ⟨vs, ⟨.value primary behind⟩, closes⟩

theorem scalarOperand {nest : Nest} (single : (scalarOf t).isSome = true) (value : nest.Value ts) :
    nest.Operand (t :: ts) := by
  obtain ⟨v, same⟩ := Option.isSome_iff_exists.mp single
  exact operandOf (.scalar same) value

theorem nameOperand {nest : Nest} (kind : t.kind = .identifier) (name : nest.Name ts) :
    nest.Operand (t :: ts) := by
  rcases name with ⟨apart, value⟩ | ⟨o, us, c, vs, rfl, opener, ⟨inner⟩, closer, value⟩
  · exact operandOf (.name kind apart) value
  · exact operandOf (.call kind opener inner closer) value

theorem unaryOperand {nest : Nest} {op : UnaryOp} (operator : operatorOf t.kind = some op)
    (operand : nest.Operand ts) : nest.Operand (t :: ts) := by
  obtain ⟨us, ⟨inner⟩, closes⟩ := operand
  exact ⟨us, ⟨.unary operator inner⟩, closes⟩

theorem beginOperandDemands {nest : Nest} (moved : beginOperand nest t = .ok s)
    (demands : s.Demands ts) : nest.Operand (t :: ts) := by
  unfold beginOperand at moved
  dsimp only at moved
  split at moved <;> rename_i kind
  · cases moved
    have operator : operatorOf t.kind = some .negate := by simp [kind, operatorOf]
    exact unaryOperand operator demands
  · cases moved
    have operator : operatorOf t.kind = some .not := by simp [kind, operatorOf]
    exact unaryOperand operator demands
  · cases moved
    exact scalarOperand (by simp [scalarOf, kind]) demands
  · cases moved
    exact scalarOperand (by simp [scalarOf, kind]) demands
  · cases moved
    exact scalarOperand (by simp [scalarOf, kind]) demands
  · cases moved
    exact scalarOperand (by simp [scalarOf, kind]) demands
  · cases moved
    exact scalarOperand (by simp [scalarOf, kind]) demands
  · cases moved
    obtain ⟨c, us, ⟨inner⟩, closer, value⟩ := demands
    exact operandOf (.list kind inner closer) value
  · cases moved
    obtain ⟨c, us, ⟨inner⟩, closer, value⟩ := demands
    exact operandOf (.group kind inner closer) value
  · cases moved
    exact nameOperand kind demands
  · cases moved

theorem operandItem {nest : Nest} (operand : nest.Operand ts) : nest.Item ts := by
  obtain ⟨base, frames, operators⟩ := nest
  match frames with
  | [] => exact ⟨ts, ⟨.noNewline⟩, operand⟩
  | .subscript _ _ :: _ => exact ⟨ts, ⟨.noNewline⟩, operand⟩
  | .items _ _ _ _ :: _ =>
    obtain ⟨us, ⟨first⟩, vs, ws, c, xs, ys, ⟨between⟩, ⟨others⟩, ⟨last⟩, closer, behind⟩ := operand
    exact ⟨c, xs, ⟨.items .noNewline first between others last⟩, closer, ys, behind⟩

theorem itemBehindNewline {nest : Nest} (newline : t.kind = .newline) (item : nest.Item ts) :
    nest.Item (t :: ts) := by
  obtain ⟨base, frames, operators⟩ := nest
  match frames with
  | [] | .subscript _ _ :: _ =>
    obtain ⟨us, ⟨blank⟩, operand⟩ := item
    exact ⟨us, ⟨.newline newline blank⟩, operand⟩
  | .items _ _ _ _ :: _ =>
    obtain ⟨c, us, ⟨d⟩, behind⟩ := item
    cases d with
    | noItem before => exact ⟨c, us, ⟨.noItem (.newline newline before)⟩, behind⟩
    | items before first between others last =>
      exact ⟨c, us, ⟨.items (.newline newline before) first between others last⟩, behind⟩

theorem beginItemDemands {nest : Nest} (moved : beginItem nest t = .ok s)
    (demands : s.Demands ts) : nest.Item (t :: ts) := by
  unfold beginItem at moved
  split at moved
  · rename_i newline
    cases moved
    exact itemBehindNewline newline demands
  split at moved
  · rename_i opening start read outer rest same
    split at moved
    · rename_i closer
      cases moved
      unfold Nest.Item
      rw [same]
      exact ⟨t, ts, ⟨.noItem .noNewline⟩, closer, demands⟩
    · exact operandItem (beginOperandDemands moved demands)
  · exact operandItem (beginOperandDemands moved demands)

theorem scriptOf {us : List Token} (first : Derivation .statement ts us) (left : LinesLeft us) :
    ∃ rest, Derivable .script ts rest := by
  obtain ⟨vs, e, rest, ⟨others⟩, ⟨behind⟩, stop⟩ := left
  exact ⟨rest, ⟨.script .noNewline first others behind stop⟩⟩

theorem targetScript {before : List Statement} {n : Text} {span : Span}
    (kind : t.kind = .identifier) (demands : (State.target before n span).Demands ts) :
    ∃ rest, Derivable .script (t :: ts) rest := by
  rcases demands with ⟨a, us, rfl, sign, vs, ⟨assigned⟩, left⟩ | name
  · exact scriptOf (.assignment kind sign assigned) left
  · obtain ⟨us, ⟨inner⟩, left⟩ := nameOperand kind name
    exact scriptOf (.expression inner) left

theorem beginStatementDemands {before : List Statement} (moved : beginStatement before t = .ok s)
    (demands : s.Demands ts) : ∃ rest, Derivable .script (t :: ts) rest := by
  unfold beginStatement at moved
  split at moved
  · rename_i newline
    cases moved
    obtain ⟨rest, ⟨d⟩⟩ := demands
    cases d with
    | blank before stop => exact ⟨rest, ⟨.blank (.newline newline before) stop⟩⟩
    | script before first others behind stop =>
      exact ⟨rest, ⟨.script (.newline newline before) first others behind stop⟩⟩
  · rename_i stop
    exact ⟨ts, ⟨.blank .noNewline stop⟩⟩
  · rename_i kind
    cases moved
    exact targetScript kind demands
  · obtain ⟨us, ⟨inner⟩, left⟩ := beginOperandDemands moved demands
    exact scriptOf (.expression inner) left

theorem behindTargetDemands {before : List Statement} {n : Text} {span : Span}
    (moved : behindTarget before n span t = .ok s) (demands : s.Demands ts) :
    (State.target before n span).Demands (t :: ts) := by
  unfold behindTarget at moved
  split at moved
  · rename_i sign
    cases moved
    exact .inl ⟨t, ts, rfl, sign, demands⟩
  · exact .inr (behindNameDemands moved demands)

theorem advanceDemands {before : State} (moved : advance before t = .ok s)
    (demands : s.Demands ts) : before.Demands (t :: ts) := by
  cases before with
  | between => exact beginStatementDemands moved demands
  | operand => exact beginOperandDemands moved demands
  | item => exact beginItemDemands moved demands
  | target => exact behindTargetDemands moved demands
  | name => exact behindNameDemands moved demands
  | value => exact behindValueDemands moved demands
  | spaced => exact finishDemands moved demands
  | script => trivial
  | lone => trivial

theorem runDemands {statements : List Statement} {stop : Location}
    (moved : run s ts = .ok (.script statements stop)) : s.Demands ts := by
  induction ts generalizing s with
  | nil =>
    cases moved
    trivial
  | cons t ts ih =>
    cases first : advance s t with
    | ok next =>
      rw [runCons first] at moved
      exact advanceDemands first (ih moved)
    | error c => simp [run, step, first, bind, Except.bind] at moved

end SeqScript.Parser
