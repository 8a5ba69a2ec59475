import Mathlib.Tactic.Basic
import SeqScript.Tree.Parser

/-! The grammar of expressions and scripts over tokens, with the trees that its phrases denote. The
parser accepts what can be derived: from any state in which an expression may begin, the tokens of
a phrase lead to a state that holds the tree of the phrase. -/
namespace SeqScript.Parser

inductive Phrase where
  | expr (e : Expr)
  | value (e : Expr)
  | items (es : List Expr) (bare : Bool)

def Newlines (ts : List Token) : Prop := ∀ t ∈ ts, t.kind = .newline

def operatorOf : TokenKind → Option UnaryOp
  | .minus => some .negate
  | .notWord => some .not
  | _ => none

def scalarOf (t : Token) : Option Scalar :=
  match t.kind with
  | .number => some (.number (.ofNumeral t.value))
  | .string => some (.string t.value)
  | .trueWord => some (.bool true)
  | .falseWord => some (.bool false)
  | .noneWord => some .none
  | _ => none

def Opening.complete (o : Opening) (items : List Expr) (bare : Bool) (span : Span) : Expr :=
  match o, items, bare with
  | .group, [only], true => only
  | o, items, _ => o.whole items span

inductive Derives : List Token → Phrase → Prop where
  | unary {t ts op e} (operator : operatorOf t.kind = some op) (operand : Derives ts (.expr e)) :
      Derives (t :: ts) (.expr (.unary op e ⟨t.span.start, e.span.stop⟩))
  | value {ts e} (inner : Derives ts (.value e)) : Derives ts (.expr e)
  | scalar {t v} (single : scalarOf t = some v) : Derives [t] (.value (.literal v t.span))
  | name {t} (kind : t.kind = .identifier) : Derives [t] (.value (.name t.value t.span))
  | list {o us es bare c} (opener : o.kind = .openBracket) (inner : Derives us (.items es bare))
      (closer : c.kind = .closeBracket) :
      Derives (o :: (us ++ [c])) (.value (Opening.list.complete es bare ⟨o.span.start, c.span.stop⟩))
  | group {o us es bare c} (opener : o.kind = .openParen) (inner : Derives us (.items es bare))
      (closer : c.kind = .closeParen) :
      Derives (o :: (us ++ [c])) (.value (Opening.group.complete es bare ⟨o.span.start, c.span.stop⟩))
  | call {n o us es bare c} (callee : n.kind = .identifier) (opener : o.kind = .openParen)
      (inner : Derives us (.items es bare)) (closer : c.kind = .closeParen) :
      Derives (n :: o :: (us ++ [c]))
        (.value ((Opening.call n.value).complete es bare ⟨n.span.start, c.span.stop⟩))
  | subscript {ts e o ns us i ms c} (object : Derives ts (.value e)) (opener : o.kind = .openBracket)
      (before : Newlines ns) (index : Derives us (.expr i)) (behind : Newlines ms)
      (closer : c.kind = .closeBracket) :
      Derives (ts ++ o :: (ns ++ us ++ ms ++ [c]))
        (.value (.subscript e i ⟨e.span.start, c.span.stop⟩))
  | noItem {ns} (blank : Newlines ns) : Derives ns (.items [] false)
  | lastItem {ns ts e ms} (before : Newlines ns) (item : Derives ts (.expr e))
      (behind : Newlines ms) : Derives (ns ++ ts ++ ms) (.items [e] true)
  | moreItems {ns ts e ms c us es bare} (before : Newlines ns) (item : Derives ts (.expr e))
      (behind : Newlines ms) (separator : c.kind = .comma) (others : Derives us (.items es bare)) :
      Derives (ns ++ ts ++ ms ++ c :: us) (.items (e :: es) bare)

inductive DerivesStatement : List Token → Statement → Prop where
  | assignment {n a ts e} (target : n.kind = .identifier) (sign : a.kind = .assign)
      (value : Derives ts (.expr e)) :
      DerivesStatement (n :: a :: ts) (.assignment n.value e ⟨n.span.start, e.span.stop⟩)
  | expression {ts e} (inner : Derives ts (.expr e)) : DerivesStatement ts (.expression e e.span)

inductive DerivesLines : List Token → List Statement → Prop where
  | none {ns} (blank : Newlines ns) : DerivesLines ns []
  | last {ns ts s} (before : Newlines ns) (statement : DerivesStatement ts s) :
      DerivesLines (ns ++ ts) [s]
  | more {ns ts s n us ss} (before : Newlines ns) (statement : DerivesStatement ts s)
      (separator : n.kind = .newline) (others : DerivesLines us ss) :
      DerivesLines (ns ++ ts ++ n :: us) (s :: ss)

/- What is left to show of a run is told by its last state: two runs, one behind the other. -/
theorem runAppend {s t : State} {ts us : List Token} (first : run s ts = .ok t) :
    run s (ts ++ us) = run t us := by
  rw [run, List.foldlM_append, ← run, first]
  rfl

theorem runCons {s next : State} {t : Token} (moved : advance s t = .ok next) (ts : List Token) :
    run s (t :: ts) = run next ts := by
  simp [run, step, moved, bind, Except.bind]

def begins (kind : TokenKind) : Bool :=
  match kind with
  | .minus | .notWord | .number | .string | .trueWord | .falseWord | .noneWord | .openBracket
  | .openParen | .identifier => true
  | _ => false

def HoldsName (s : State) (nest : Nest) (name : Text) (span : Span) : Prop :=
  ∀ t, t.kind ≠ .assign → advance s t = behindName nest name span t

def Ready (s : State) (nest : Nest) : Prop :=
  ∀ t, begins t.kind = true →
    if t.kind = .identifier then
      ∃ next, advance s t = .ok next ∧ HoldsName next nest t.value t.span
    else advance s t = beginOperand nest t

def HoldsValue (s : State) (nest : Nest) (e : Expr) : Prop :=
  ∀ t, t.kind ≠ .assign → t.kind ≠ .openParen → advance s t = behindValue nest e t

def HoldsWhole (s : State) (base : Base) (frames : List Frame) (e : Expr) : Prop :=
  ∀ t, t.kind ≠ .assign → t.kind ≠ .openParen → t.kind ≠ .openBracket →
    advance s t = finish base frames e t

theorem readyOperand (nest : Nest) : Ready (.operand nest) nest := by
  intro t begin
  split
  · rename_i kind
    exact ⟨.name nest t.value t.span, by simp [advance, beginOperand, kind], fun _ _ => rfl⟩
  · rfl

theorem readyItem (nest : Nest) : Ready (.item nest) nest := by
  intro t begin
  have start : advance (.item nest) t = beginOperand nest t := by
    simp only [advance, beginItem]
    rw [if_neg (by rintro h; simp [h, begins] at begin)]
    split
    · rename_i opening _ _ _ _ _
      rw [if_neg]
      intro h
      cases opening <;> simp [h, begins, Opening.closer, Closer.kind] at begin
    · rfl
  split
  · rename_i kind
    exact ⟨.name nest t.value t.span, by simp [start, beginOperand, kind], fun _ _ => rfl⟩
  · exact start

theorem readyBetween (before : List Statement) :
    Ready (.between before) (Base.statement before).nest := by
  intro t begin
  split
  · rename_i kind
    refine ⟨.target before t.value t.span, by simp [advance, beginStatement, kind], fun u other => ?_⟩
    simp [advance, behindTarget, other]
  · rename_i other
    simp only [advance, beginStatement]
    split
    · rename_i kind; simp [kind, begins] at begin
    · rename_i kind; simp [kind, begins] at begin
    · rename_i kind; exact absurd kind other
    · rfl

theorem HoldsName.value {s : State} {nest : Nest} {name : Text} {span : Span}
    (holds : HoldsName s nest name span) : HoldsValue s nest (.name name span) := by
  intro t noAssign noCall
  rw [holds t noAssign, behindName, if_neg noCall]

theorem HoldsValue.whole {s : State} {nest : Nest} {e : Expr} (holds : HoldsValue s nest e) :
    HoldsWhole s nest.base nest.frames (applyAll nest.operators e) := by
  intro t noAssign noCall noSubscript
  rw [holds t noAssign noCall, behindValue, if_neg noSubscript]

theorem holdsValue (nest : Nest) (e : Expr) : HoldsValue (.value nest e) nest e :=
  fun _ _ _ => rfl

theorem HoldsWhole.newlines {s : State} {base : Base} {f : Frame} {rest : List Frame} {e : Expr}
    (holds : HoldsWhole s base (f :: rest) e) {ns : List Token} (blank : Newlines ns) :
    ∃ next, run s ns = .ok next ∧ HoldsWhole next base (f :: rest) e := by
  induction ns generalizing s with
  | nil => exact ⟨s, rfl, holds⟩
  | cons n ns ih =>
    have kind : n.kind = .newline := blank n List.mem_cons_self
    have spaced : advance s n = .ok (.spaced ⟨base, f :: rest, []⟩ e) := by
      rw [holds n (by simp [kind]) (by simp [kind]) (by simp [kind])]
      cases f with
      | subscript object outer => simp [finish, kind]
      | items opening start read outer =>
        cases opening <;> simp [finish, kind, Opening.closer, Closer.kind]
    obtain ⟨next, moved, held⟩ := ih (s := .spaced ⟨base, f :: rest, []⟩ e)
      (fun _ _ _ _ => rfl) fun t member => blank t (List.mem_cons_of_mem n member)
    exact ⟨next, by rw [runCons spaced, moved], held⟩

theorem itemNewlines (nest : Nest) {ns : List Token} (blank : Newlines ns) :
    run (.item nest) ns = .ok (.item nest) := by
  induction ns with
  | nil => rfl
  | cons n ns ih =>
    have kind : n.kind = .newline := blank n List.mem_cons_self
    have same : advance (.item nest) n = .ok (.item nest) := by simp [advance, beginItem, kind]
    rw [runCons same, ih fun t member => blank t (List.mem_cons_of_mem n member)]

theorem wholeWithLast (o : Opening) (items : List Expr) (e : Expr) (span : Span) :
    o.wholeWithLast items e span = o.complete (items ++ [e]) true span := by
  cases o <;> rcases items with _ | ⟨x, _ | ⟨y, rest⟩⟩ <;> rfl

theorem completeMarked (o : Opening) (items : List Expr) (span : Span) :
    o.whole items span = o.complete items false span := by
  cases o <;> rcases items with _ | ⟨x, _ | ⟨y, rest⟩⟩ <;> rfl

def Phrase.Accepted (ts : List Token) : Phrase → Prop
  | .expr e => ∀ s nest, Ready s nest → ∃ next, run s ts = .ok next ∧
      HoldsWhole next nest.base nest.frames (applyAll nest.operators e)
  | .value e => ∀ s nest, Ready s nest → ∃ next, run s ts = .ok next ∧ HoldsValue next nest e
  | .items es bare => ∀ base (o : Opening) start read outer rest (c : Token),
      c.kind = o.closer.kind →
      run (.item ⟨base, .items o start read outer :: rest, []⟩) (ts ++ [c]) =
        .ok (.value ⟨base, rest, outer⟩ (o.complete (read ++ es) bare ⟨start, c.span.stop⟩))

theorem Ready.operator {s : State} {nest : Nest} (ready : Ready s nest) {t : Token} {op : UnaryOp}
    (operator : operatorOf t.kind = some op) :
    advance s t = .ok (.operand { nest with operators := (op, t.span.start) :: nest.operators }) := by
  have move := ready t
  cases kind : t.kind <;> simp [kind, operatorOf] at operator
  all_goals
    subst operator
    simp [kind, begins, beginOperand] at move
    exact move

theorem Ready.scalar {s : State} {nest : Nest} (ready : Ready s nest) {t : Token} {v : Scalar}
    (single : scalarOf t = some v) : advance s t = .ok (.value nest (.literal v t.span)) := by
  have move := ready t
  cases kind : t.kind <;> simp [kind, scalarOf] at single
  all_goals
    subst single
    simp [kind, begins, beginOperand] at move
    exact move

theorem Ready.bracket {s : State} {nest : Nest} (ready : Ready s nest) {t : Token} {o : Opening}
    (opens : t.kind = .openBracket ∧ o = .list ∨ t.kind = .openParen ∧ o = .group) :
    advance s t =
      .ok (.item ⟨nest.base, .items o t.span.start [] nest.operators :: nest.frames, []⟩) := by
  have move := ready t
  rcases opens with ⟨kind, rfl⟩ | ⟨kind, rfl⟩
  all_goals
    simp [kind, begins, beginOperand] at move
    exact move

theorem Ready.identifier {s : State} {nest : Nest} (ready : Ready s nest) {t : Token}
    (kind : t.kind = .identifier) :
    ∃ next, advance s t = .ok next ∧ HoldsName next nest t.value t.span := by
  have move := ready t (by simp [kind, begins])
  rwa [if_pos kind] at move

theorem closerKind (o : Opening) :
    o.closer.kind = .closeBracket ∨ o.closer.kind = .closeParen := by
  cases o with
  | list => exact .inl rfl
  | group => exact .inr rfl
  | call => exact .inr rfl

theorem HoldsWhole.close {s : State} {base : Base} {o : Opening} {start : Location}
    {read : List Expr} {outer : Operators} {rest : List Frame} {e : Expr}
    (holds : HoldsWhole s base (.items o start read outer :: rest) e) {c : Token}
    (kind : c.kind = o.closer.kind) :
    advance s c = .ok (.value ⟨base, rest, outer⟩
      (o.complete (read ++ [e]) true ⟨start, c.span.stop⟩)) := by
  rw [← wholeWithLast]
  have other : c.kind ≠ .assign ∧ c.kind ≠ .openParen ∧ c.kind ≠ .openBracket := by
    rcases closerKind o with same | same <;> simp [kind, same]
  rw [holds c other.1 other.2.1 other.2.2, finish, if_pos kind]

theorem HoldsWhole.comma {s : State} {base : Base} {o : Opening} {start : Location}
    {read : List Expr} {outer : Operators} {rest : List Frame} {e : Expr}
    (holds : HoldsWhole s base (.items o start read outer :: rest) e) {c : Token}
    (kind : c.kind = .comma) :
    advance s c = .ok (.item ⟨base, .items o start (read ++ [e]) outer :: rest, []⟩) := by
  have closer : c.kind ≠ o.closer.kind := by
    rcases closerKind o with same | same <;> simp [kind, same]
  rw [holds c (by simp [kind]) (by simp [kind]) (by simp [kind]), finish, if_neg closer, if_pos kind]

theorem HoldsWhole.subscript {s : State} {base : Base} {object : Expr} {outer : Operators}
    {rest : List Frame} {e : Expr} (holds : HoldsWhole s base (.subscript object outer :: rest) e)
    {c : Token} (kind : c.kind = .closeBracket) :
    advance s c = .ok (.value ⟨base, rest, outer⟩
      (.subscript object e ⟨object.span.start, c.span.stop⟩)) := by
  rw [holds c (by simp [kind]) (by simp [kind]) (by simp [kind]), finish, if_pos kind]

theorem itemBetween {ns ts ms : List Token} {e : Expr} (before : Newlines ns)
    (item : Phrase.Accepted ts (.expr e)) (behind : Newlines ms) (base : Base) (f : Frame)
    (rest : List Frame) :
    ∃ next, run (.item ⟨base, f :: rest, []⟩) (ns ++ ts ++ ms) = .ok next ∧
      HoldsWhole next base (f :: rest) e := by
  obtain ⟨middle, reached, whole⟩ := item _ _ (readyItem ⟨base, f :: rest, []⟩)
  obtain ⟨last, moved, held⟩ := HoldsWhole.newlines whole behind
  refine ⟨last, ?_, held⟩
  rw [List.append_assoc, runAppend (itemNewlines _ before), runAppend reached, moved]

theorem derivedAccepted {ts : List Token} {p : Phrase} (derives : Derives ts p) :
    p.Accepted ts := by
  -- The statement is open in the state before the tokens, so each part runs from where the last one ended.
  induction derives with
  | unary operator operand ih =>
    intro s nest ready
    obtain ⟨next, reached, holds⟩ := ih _ _ (readyOperand _)
    exact ⟨next, by rw [runCons (ready.operator operator), reached], holds⟩
  | value inner ih =>
    intro s nest ready
    obtain ⟨next, reached, holds⟩ := ih s nest ready
    exact ⟨next, reached, holds.whole⟩
  | scalar single =>
    intro s nest ready
    exact ⟨_, runCons (ready.scalar single) [], holdsValue nest _⟩
  | name kind =>
    intro s nest ready
    obtain ⟨next, moved, holds⟩ := ready.identifier kind
    exact ⟨next, runCons moved [], holds.value⟩
  | list opener inner closer ih =>
    intro s nest ready
    have opened := ready.bracket (.inl ⟨opener, rfl⟩)
    exact ⟨_, (runCons opened _).trans (ih _ _ _ [] _ _ _ closer), holdsValue nest _⟩
  | group opener inner closer ih =>
    intro s nest ready
    have opened := ready.bracket (.inr ⟨opener, rfl⟩)
    exact ⟨_, (runCons opened _).trans (ih _ _ _ [] _ _ _ closer), holdsValue nest _⟩
  | @call n o us es bare c callee opener inner closer ih =>
    intro s nest ready
    obtain ⟨next, moved, holds⟩ := ready.identifier callee
    have opened := holds o (by simp [opener])
    rw [behindName, if_pos opener] at opened
    have items := (runCons opened _).trans (ih _ _ _ [] _ _ _ closer)
    exact ⟨_, (runCons moved _).trans items, holdsValue nest _⟩
  | @subscript ts e o ns us i ms c object opener before index behind closer ihObject ihIndex =>
    intro s nest ready
    obtain ⟨held, reached, holds⟩ := ihObject s nest ready
    have opened := holds o (by simp [opener]) (by simp [opener])
    rw [behindValue, if_pos opener] at opened
    obtain ⟨last, inside, whole⟩ := itemBetween before ihIndex behind nest.base
      (.subscript e nest.operators) nest.frames
    refine ⟨_, ?_, holdsValue _ _⟩
    rw [runAppend reached, runCons opened, runAppend inside, runCons (whole.subscript closer)]
    rfl
  | noItem blank =>
    intro base o start read outer rest c closer
    have line : o.closer.kind ≠ .newline := by
      rcases closerKind o with same | same <;> simp [same]
    have closed : advance (.item ⟨base, .items o start read outer :: rest, []⟩) c =
        .ok (.value ⟨base, rest, outer⟩ (o.whole read ⟨start, c.span.stop⟩)) := by
      simp [advance, beginItem, line, closer]
    rw [runAppend (itemNewlines _ blank), runCons closed, List.append_nil, completeMarked]
    rfl
  | lastItem before item behind ih =>
    intro base o start read outer rest c closer
    obtain ⟨last, reached, whole⟩ := itemBetween before ih behind base
      (.items o start read outer) rest
    rw [runAppend reached, runCons (whole.close closer)]
    rfl
  | @moreItems ns ts e ms k us es bare before item behind separator others ihItem ihOthers =>
    intro base o start read outer rest c closer
    obtain ⟨last, reached, whole⟩ := itemBetween before ihItem behind base
      (.items o start read outer) rest
    have next := ihOthers base o start (read ++ [e]) outer rest c closer
    rw [List.append_assoc, runAppend reached, List.cons_append, runCons (whole.comma separator), next]
    simp

def HoldsStatement (s : State) (before : List Statement) (statement : Statement) : Prop :=
  ∀ t, t.kind = .newline ∨ t.kind = .endOfInput → advance s t = finishStatement before statement t

theorem HoldsWhole.atEnd {s : State} {base : Base} {e : Expr} (holds : HoldsWhole s base [] e)
    {t : Token} (ends : t.kind = .newline ∨ t.kind = .endOfInput) :
    advance s t = base.finish e t := by
  have other : t.kind ≠ .assign ∧ t.kind ≠ .openParen ∧ t.kind ≠ .openBracket := by
    rcases ends with kind | kind <;> simp [kind]
  rw [holds t other.1 other.2.1 other.2.2, finish]

theorem statementAccepted {ts : List Token} {statement : Statement}
    (derives : DerivesStatement ts statement) (before : List Statement) :
    ∃ next, run (.between before) ts = .ok next ∧ HoldsStatement next before statement := by
  cases derives with
  | @assignment n a ts e target sign value =>
    have named : advance (.between before) n = .ok (.target before n.value n.span) := by
      simp [advance, beginStatement, target]
    have assigned : advance (.target before n.value n.span) a =
        .ok (.operand (Base.assignment before n.value n.span.start).nest) := by
      simp [advance, behindTarget, sign]
    obtain ⟨next, reached, holds⟩ := derivedAccepted value _ _ (readyOperand _)
    exact ⟨next, by rw [runCons named, runCons assigned, reached], fun t ends => holds.atEnd ends⟩
  | expression inner =>
    obtain ⟨next, reached, holds⟩ := derivedAccepted inner _ _ (readyBetween before)
    exact ⟨next, reached, fun t ends => holds.atEnd ends⟩

theorem betweenNewlines (before : List Statement) {ns : List Token} (blank : Newlines ns) :
    run (.between before) ns = .ok (.between before) := by
  induction ns with
  | nil => rfl
  | cons n ns ih =>
    have kind : n.kind = .newline := blank n List.mem_cons_self
    have same : advance (.between before) n = .ok (.between before) := by
      simp [advance, beginStatement, kind]
    rw [runCons same, ih fun t member => blank t (List.mem_cons_of_mem n member)]

theorem linesAccepted {ts : List Token} {ss : List Statement} (derives : DerivesLines ts ss)
    (before : List Statement) {last : Token} (ends : last.kind = .endOfInput) :
    run (.between before) (ts ++ [last]) = .ok (.script (before ++ ss) last.span.stop) := by
  induction derives generalizing before with
  | none blank =>
    have closed : advance (.between before) last = .ok (.script before last.span.stop) := by
      simp [advance, beginStatement, ends]
    rw [runAppend (betweenNewlines before blank), runCons closed, List.append_nil]
    rfl
  | last blank statement =>
    obtain ⟨next, reached, holds⟩ := statementAccepted statement before
    have closed := holds last (.inr ends)
    rw [finishStatement, ends] at closed
    rw [List.append_assoc, runAppend (betweenNewlines before blank), runAppend reached,
      runCons closed]
    rfl
  | more blank statement separator others ih =>
    obtain ⟨next, reached, holds⟩ := statementAccepted statement before
    have closed := holds _ (.inl separator)
    rw [finishStatement, separator] at closed
    rw [List.append_assoc, List.append_assoc, runAppend (betweenNewlines before blank),
      runAppend reached, List.cons_append, runCons closed, ih, List.append_assoc]
    rfl

theorem scriptAccepted {ts : List Token} {ss : List Statement} (derives : DerivesLines ts ss)
    {last : Token} (ends : last.kind = .endOfInput) :
    scriptOfTokens (ts ++ [last]) = .ok ⟨ss, ⟨startOf (ts ++ [last]), last.span.stop⟩⟩ := by
  rw [scriptOfTokens, linesAccepted derives [] ends]
  rfl

theorem exprAccepted {ts : List Token} {e : Expr} (derives : Derives ts (.expr e))
    {last : Token} (ends : last.kind = .endOfInput) : exprOfTokens (ts ++ [last]) = .ok e := by
  obtain ⟨next, reached, holds⟩ := derivedAccepted derives _ _ (readyItem Base.lone.nest)
  have closed := holds.atEnd (.inr ends)
  simp only [Base.nest, Base.finish, ends] at closed
  rw [exprOfTokens, runAppend reached, runCons closed]
  rfl

end SeqScript.Parser
