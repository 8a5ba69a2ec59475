import Mathlib.Data.List.Forall2
import SeqScript.Proofs.Tree.Grammar
import SeqScript.Proofs.Tree.Places

/-! The first offending token. Every state that the parser reaches can still be led to a script, and
which tokens it takes depends on kinds alone. So what was read before a refused token begins some
script, and with that token no script begins. -/
namespace SeqScript

def Token.Alike (t u : Token) : Prop := t.kind = u.kind ∧ t.value = u.value

namespace Parser

def EndsOnce (ts : List Token) : Prop :=
  ∃ us last, ts = us ++ [last] ∧ last.kind = .endOfInput ∧ ∀ t ∈ us, t.kind ≠ .endOfInput

def State.Completes (s : State) : Prop :=
  ∃ us, EndsOnce us ∧ ∃ statements stop, run s us = .ok (.script statements stop)

def State.Reachable (s : State) : Prop := s.Sound fun _ => True

def someToken (kind : TokenKind) : Token := ⟨kind, [], ⟨.first, .first⟩⟩

theorem EndsOnce.cons {t : Token} {ts : List Token} (inner : t.kind ≠ .endOfInput)
    (ends : EndsOnce ts) : EndsOnce (t :: ts) := by
  obtain ⟨us, last, rfl, kind, others⟩ := ends
  refine ⟨t :: us, last, rfl, kind, fun u member => ?_⟩
  rcases List.mem_cons.mp member with rfl | inside
  · exact inner
  · exact others u inside

theorem completesAtEnd {s : State} {t : Token} {statements : List Statement} {stop : Location}
    (ends : t.kind = .endOfInput) (moved : advance s t = .ok (.script statements stop)) :
    s.Completes :=
  ⟨[t], ⟨[], t, rfl, ends, List.forall_mem_nil _⟩, statements, stop, runCons moved []⟩

theorem completesBehind {s next : State} {t : Token} (inner : t.kind ≠ .endOfInput)
    (moved : advance s t = .ok next) (completes : next.Completes) : s.Completes := by
  obtain ⟨us, ends, statements, stop, reached⟩ := completes
  exact ⟨t :: us, ends.cons inner, statements, stop, by rw [runCons moved, reached]⟩

theorem HoldsWhole.completes {base : Base} (outside : base ≠ .lone) {frames : List Frame} {s : State}
    {e : Expr} (holds : HoldsWhole s base frames e) : s.Completes := by
  induction frames generalizing s e with
  | nil =>
    have moved := holds.atEnd (t := someToken .endOfInput) (.inr rfl)
    cases base with
    | lone => exact absurd rfl outside
    | statement before => exact completesAtEnd rfl moved
    | assignment before target start => exact completesAtEnd rfl moved
  | cons f rest ih =>
    cases f with
    | subscript object outer =>
      have closed := holds.subscript (c := someToken .closeBracket) rfl
      exact completesBehind (by simp [someToken]) closed (ih (holdsValue _ _).whole)
    | items opening start read outer =>
      have closed := holds.close (c := someToken opening.closer.kind) rfl
      refine completesBehind ?_ closed (ih (holdsValue _ _).whole)
      rcases closerKind opening with kind | kind <;> simp [someToken, kind]

theorem Ready.completes {s : State} {nest : Nest} (outside : nest.base ≠ .lone)
    (ready : Ready s nest) : s.Completes := by
  have moved := ready.scalar (t := someToken .noneWord) rfl
  exact completesBehind (by simp [someToken]) moved ((holdsValue nest _).whole.completes outside)

theorem Base.Sound.outside {place : Location → Prop} {b : Base} (sound : b.Sound place) :
    b ≠ .lone := by
  rintro rfl
  exact sound

theorem State.Reachable.completes {s : State} (reachable : s.Reachable) : s.Completes := by
  cases s with
  | between before => exact (readyBetween before).completes Base.noConfusion
  | operand nest => exact (readyOperand nest).completes reachable.base.outside
  | item nest => exact (readyItem nest).completes reachable.base.outside
  | target before name span =>
    have holds : HoldsName (.target before name span) (Base.statement before).nest name span :=
      fun t other => by rw [advance, behindTarget, if_neg other]
    exact holds.value.whole.completes Base.noConfusion
  | name nest name span =>
    have holds : HoldsName (.name nest name span) nest name span := fun _ _ => rfl
    exact holds.value.whole.completes reachable.1.base.outside
  | value nest e => exact (holdsValue nest e).whole.completes reachable.1.base.outside
  | spaced nest e =>
    have holds : HoldsWhole (.spaced nest e) nest.base nest.frames e := fun _ _ _ _ => rfl
    exact holds.completes reachable.1.base.outside
  | script statements stop => exact completesAtEnd (t := someToken .endOfInput) rfl rfl
  | lone e => exact reachable.elim

/- What a state keeps of the tokens it has read, apart from trees: the brackets that are open, from
the innermost on, where a subscript takes no commas and so has none here. -/

def Base.isLone : Base → Bool
  | .lone => true
  | .statement _ | .assignment _ _ _ => false

def Frame.closer? : Frame → Option Closer
  | .subscript _ _ => none
  | .items opening _ _ _ => some opening.closer

structure Brackets where
  lone : Bool
  around : List (Option Closer)

def Nest.brackets (n : Nest) : Brackets := ⟨n.base.isLone, n.frames.map Frame.closer?⟩

inductive Form where
  | between | target | script | lone
  | operand (inside : Brackets)
  | item (inside : Brackets)
  | name (inside : Brackets)
  | value (inside : Brackets)
  | spaced (inside : Brackets)

def State.form : State → Form
  | .between _ => .between
  | .operand nest => .operand nest.brackets
  | .item nest => .item nest.brackets
  | .target _ _ _ => .target
  | .name nest _ _ => .name nest.brackets
  | .value nest _ => .value nest.brackets
  | .spaced nest _ => .spaced nest.brackets
  | .script _ _ => .script
  | .lone _ => .lone

def formBehind {ε : Type} (moved : Except ε State) : Option Form := moved.toOption.map State.form

@[simp] theorem formBehindOk {ε : Type} (s : State) :
    formBehind (.ok s : Except ε State) = some s.form := rfl

@[simp] theorem formBehindError {ε : Type} (c : ε) : formBehind (.error c) = none := rfl

theorem sameBrackets {n m : Nest} (same : n.brackets = m.brackets) :
    n.base.isLone = m.base.isLone ∧ n.frames.map Frame.closer? = m.frames.map Frame.closer? :=
  Brackets.mk.inj same

theorem statementBrackets (before others : List Statement) :
    (Base.statement before).nest.brackets = (Base.statement others).nest.brackets := rfl

/- Where the forms are one and the kinds are one, so is what follows: the function of the machine
that is asked makes the same choices on both sides. -/
section Forms

variable {t u : Token} (kinds : t.kind = u.kind)
include kinds

theorem finishStatementForm (before others : List Statement) (statement other : Statement) :
    formBehind (finishStatement before statement t) = formBehind (finishStatement others other u) := by
  unfold finishStatement
  rw [kinds]
  cases u.kind <;> rfl

theorem baseFinishForm {b c : Base} (bases : b.isLone = c.isLone) (e d : Expr) :
    formBehind (b.finish e t) = formBehind (c.finish d u) := by
  cases b <;> cases c <;> try (cases bases; done)
  case lone.lone =>
    simp only [Base.finish]
    rw [kinds]
    cases u.kind <;> rfl
  all_goals exact finishStatementForm kinds _ _ _ _

theorem finishForm {b c : Base} (bases : b.isLone = c.isLone) {fs gs : List Frame}
    (frames : fs.map Frame.closer? = gs.map Frame.closer?) (e d : Expr) :
    formBehind (finish b fs e t) = formBehind (finish c gs d u) := by
  rcases fs with _ | ⟨f, fs⟩ <;> rcases gs with _ | ⟨g, gs⟩
  case nil.nil => exact baseFinishForm kinds bases e d
  case nil.cons => cases frames
  case cons.nil => cases frames
  obtain ⟨closers, rest⟩ := List.cons_eq_cons.mp frames
  cases f <;> cases g <;> try (cases closers; done)
  case subscript.subscript =>
    simp only [finish, kinds]
    split_ifs <;> simp [State.form, Nest.brackets, Frame.closer?, bases, rest]
  case items.items =>
    have same := Option.some.inj closers
    simp only [finish, kinds, same]
    split_ifs <;> simp [State.form, Nest.brackets, Frame.closer?, bases, rest, same]

theorem behindValueForm {n m : Nest} (inside : n.brackets = m.brackets) (e d : Expr) :
    formBehind (behindValue n e t) = formBehind (behindValue m d u) := by
  obtain ⟨bases, frames⟩ := sameBrackets inside
  simp only [behindValue, kinds]
  split
  · simp [State.form, Nest.brackets, Frame.closer?, bases, frames]
  · exact finishForm kinds bases frames _ _

theorem behindNameForm {n m : Nest} (inside : n.brackets = m.brackets) (name other : Text)
    (span place : Span) :
    formBehind (behindName n name span t) = formBehind (behindName m other place u) := by
  obtain ⟨bases, frames⟩ := sameBrackets inside
  simp only [behindName, kinds]
  split
  · simp [State.form, Nest.brackets, Frame.closer?, Opening.closer, bases, frames]
  · exact behindValueForm kinds inside _ _

theorem beginOperandForm {n m : Nest} (inside : n.brackets = m.brackets) :
    formBehind (beginOperand n t) = formBehind (beginOperand m u) := by
  obtain ⟨bases, frames⟩ := sameBrackets inside
  unfold beginOperand
  rw [kinds]
  cases u.kind <;> simp [State.form, Nest.brackets, Frame.closer?, Opening.closer, bases, frames]

theorem beginItemForm {n m : Nest} (inside : n.brackets = m.brackets) :
    formBehind (beginItem n t) = formBehind (beginItem m u) := by
  obtain ⟨bases, frames⟩ := sameBrackets inside
  have operand := beginOperandForm kinds inside
  obtain ⟨b, fs, waiting⟩ := n
  obtain ⟨c, gs, others⟩ := m
  simp only [beginItem, kinds]
  split
  · exact congrArg (fun b => some (Form.item b)) inside
  rcases fs with _ | ⟨f, fs⟩ <;> rcases gs with _ | ⟨g, gs⟩
  case isFalse.nil.nil => exact operand
  case isFalse.nil.cons => cases frames
  case isFalse.cons.nil => cases frames
  obtain ⟨closers, rest⟩ := List.cons_eq_cons.mp frames
  cases f <;> cases g <;> try (cases closers; done)
  case subscript.subscript => exact operand
  case items.items =>
    have same := Option.some.inj closers
    simp only [same]
    split
    · simp [State.form, Nest.brackets, bases, rest]
    · exact operand

theorem beginStatementForm (before others : List Statement) :
    formBehind (beginStatement before t) = formBehind (beginStatement others u) := by
  have operand := beginOperandForm kinds (statementBrackets before others)
  unfold beginStatement
  rw [kinds]
  cases u.kind <;> first | rfl | exact operand

theorem behindTargetForm (before others : List Statement) (name other : Text) (span place : Span) :
    formBehind (behindTarget before name span t) = formBehind (behindTarget others other place u) := by
  simp only [behindTarget, kinds]
  split
  · rfl
  · exact behindNameForm kinds (statementBrackets before others) name other span place

theorem advanceForm {s r : State} (forms : s.form = r.form) :
    formBehind (advance s t) = formBehind (advance r u) := by
  cases s <;> cases r <;> try (cases forms; done)
  case between.between => exact beginStatementForm kinds _ _
  case operand.operand => exact beginOperandForm kinds (Form.operand.inj forms)
  case item.item => exact beginItemForm kinds (Form.item.inj forms)
  case target.target => exact behindTargetForm kinds _ _ _ _ _ _
  case name.name => exact behindNameForm kinds (Form.name.inj forms) _ _ _ _
  case value.value => exact behindValueForm kinds (Form.value.inj forms) _ _
  case spaced.spaced nest e other d =>
    obtain ⟨bases, frames⟩ := sameBrackets (Form.spaced.inj forms)
    exact finishForm kinds bases frames e d
  case script.script => rfl
  case lone.lone => rfl

end Forms

theorem runForm {ts us : List Token} (kinds : List.Forall₂ (fun t u => t.kind = u.kind) ts us)
    {s r : State} (forms : s.form = r.form) : formBehind (run s ts) = formBehind (run r us) := by
  induction kinds generalizing s r with
  | nil => exact congrArg some forms
  | @cons t u ts us same rest ih =>
    have next := advanceForm same forms
    cases left : advance s t <;> cases right : advance r u
    case error.error c d => simp [run, step, left, right, bind, Except.bind]
    case error.ok c r' => simp [left, right] at next
    case ok.error s' d => simp [left, right] at next
    case ok.ok s' r' =>
      simp only [left, right, formBehindOk, Option.some.injEq] at next
      rw [runCons left, runCons right]
      exact ih next

theorem refusedToken {s : State} {ts : List Token} {f : Fault} (refused : run s ts = .error f) :
    ∃ before t after r cause, ts = before ++ t :: after ∧ run s before = .ok r ∧
      run s (before ++ [t]) = .error f ∧ f = ⟨cause, some t.span.start⟩ := by
  induction ts generalizing s with
  | nil => cases refused
  | cons t ts ih =>
    cases moved : advance s t with
    | ok next =>
      rw [runCons moved] at refused
      obtain ⟨before, u, after, r, cause, rfl, reached, stopped, located⟩ := ih refused
      refine ⟨t :: before, u, after, r, cause, rfl, ?_, ?_, located⟩
      · rw [runCons moved, reached]
      · rw [List.cons_append, runCons moved, stopped]
    | error cause =>
      have stopped (us : List Token) : run s (t :: us) = .error ⟨cause, some t.span.start⟩ := by
        simp [run, step, moved, bind, Except.bind]
      rw [stopped] at refused
      cases refused
      exact ⟨[], t, ts, s, cause, rfl, rfl, stopped [], rfl⟩

theorem runStopped {s : State} {ts : List Token} {f : Fault} (refused : run s ts = .error f)
    (us : List Token) : run s (ts ++ us) = .error f := by
  rw [run, List.foldlM_append, ← run, refused]
  rfl

theorem runLast {s s' : State} {ts : List Token} {t : Token} (reached : run s (ts ++ [t]) = .ok s') :
    ∃ r, run s ts = .ok r ∧ advance r t = .ok s' := by
  cases front : run s ts with
  | error f => rw [runStopped front] at reached; cases reached
  | ok r =>
    rw [runAppend front] at reached
    cases moved : advance r t with
    | error cause => simp [run, step, moved, bind, Except.bind] at reached
    | ok next => rw [runCons moved] at reached; cases reached; exact ⟨r, rfl, moved⟩

theorem betweenReachable : (State.between []).Reachable := List.forall_mem_nil _

theorem runReachable {ts : List Token} {s : State} (reached : run (.between []) ts = .ok s) :
    s.Reachable := by
  have ends : Ends (fun _ => True) (run (.between []) ts) :=
    runEnds betweenReachable fun _ _ => trivial
  rwa [reached] at ends

theorem refusalInside {ts : List Token} (ends : EndsOnce ts) {f : Fault}
    (refused : scriptOfTokens ts = .error f) : run (.between []) ts = .error f := by
  obtain ⟨us, last, rfl, kind, -⟩ := ends
  unfold scriptOfTokens at refused
  cases whole : run (.between []) (us ++ [last]) with
  | error g => rw [whole] at refused; cases refused; rfl
  | ok s =>
    obtain ⟨r, reached, moved⟩ := runLast whole
    obtain ⟨statements, stop, rfl⟩ := advanceEnds (runReachable reached) kind moved
    rw [whole] at refused
    cases refused

def Viable (ts : List Token) : Prop :=
  ∃ us, EndsOnce (ts ++ us) ∧ ∃ script, scriptOfTokens (ts ++ us) = .ok script

def Blocked (ts : List Token) : Prop :=
  ∀ vs, List.Forall₂ Token.Alike ts vs → ∀ ws script, scriptOfTokens (vs ++ ws) ≠ .ok script

theorem viable {ts : List Token} (inner : ∀ t ∈ ts, t.kind ≠ .endOfInput) {s : State}
    (reached : run (.between []) ts = .ok s) : Viable ts := by
  obtain ⟨us, ⟨rest, last, rfl, kind, others⟩, statements, stop, completed⟩ :=
    (runReachable reached).completes
  refine ⟨rest ++ [last], ⟨ts ++ rest, last, (List.append_assoc ..).symm, kind, fun t member => ?_⟩,
    ⟨statements, ⟨startOf (ts ++ (rest ++ [last])), stop⟩⟩, ?_⟩
  · exact (List.mem_append.mp member).elim (inner t) (others t)
  · rw [scriptOfTokens, runAppend reached, completed]

theorem blocked {ts : List Token} {f : Fault} (refused : run (.between []) ts = .error f) :
    Blocked ts := by
  intro vs alike ws script
  have forms := runForm (alike.imp fun _ _ same => same.1) (Eq.refl (State.between []).form)
  cases also : run (.between []) vs with
  | ok s => simp [refused, also] at forms
  | error g => simp [scriptOfTokens, runStopped also]

/- A refusal stands at the first token with which no script begins: what is before it begins one. -/
theorem firstOffence {ts : List Token} (ends : EndsOnce ts) {f : Fault}
    (refused : scriptOfTokens ts = .error f) :
    f.cause.reportClass = .parse ∧ ∃ before t after, ts = before ++ t :: after ∧
      f.location = some t.span.start ∧ Viable before ∧ Blocked (before ++ [t]) := by
  have stopped := refusalInside ends refused
  have faults : Ends (fun _ => True) (run (.between []) ts) :=
    runEnds betweenReachable fun _ _ => trivial
  rw [stopped] at faults
  obtain ⟨before, t, after, s, cause, split, reached, refusal, rfl⟩ := refusedToken stopped
  refine ⟨faults.1, before, t, after, split, rfl, viable (fun u member => ?_) reached, blocked refusal⟩
  obtain ⟨us, last, rfl, kind, others⟩ := ends
  have inFront : before <+: us := by
    have whole : before <+: us ++ [last] := ⟨t :: after, split.symm⟩
    rcases List.prefix_concat_iff.mp whole with same | inside
    · have length := congrArg List.length split
      simp [same] at length
    · exact inside
  exact others u (inFront.subset member)

def crossedCall : List Token :=
  [⟨.identifier, text "f", ⟨⟨1, 1, 0⟩, ⟨1, 2, 1⟩⟩⟩, ⟨.openParen, text "(", ⟨⟨1, 2, 1⟩, ⟨1, 3, 2⟩⟩⟩,
    ⟨.closeBracket, text "]", ⟨⟨1, 3, 2⟩, ⟨1, 4, 3⟩⟩⟩, ⟨.endOfInput, [], ⟨⟨1, 4, 3⟩, ⟨1, 4, 3⟩⟩⟩]

theorem crossedCallOffends :
    EndsOnce crossedCall ∧
      scriptOfTokens crossedCall =
        .error ⟨.unexpectedToken .closeBracket (text "]"), some ⟨1, 3, 2⟩⟩ ∧
      ∃ before t after, crossedCall = before ++ t :: after ∧
        some (⟨1, 3, 2⟩ : Location) = some t.span.start ∧ Viable before ∧ Blocked (before ++ [t]) := by
  have ends : EndsOnce crossedCall := by
    refine ⟨crossedCall.dropLast, _, rfl, rfl, fun t member => ?_⟩
    simp only [crossedCall, List.dropLast, List.mem_cons, List.not_mem_nil, or_false] at member
    rcases member with rfl | rfl | rfl <;> exact TokenKind.noConfusion
  have refused : scriptOfTokens crossedCall =
      .error ⟨.unexpectedToken .closeBracket (text "]"), some ⟨1, 3, 2⟩⟩ := rfl
  exact ⟨ends, refused, (firstOffence ends refused).2⟩

end Parser

end SeqScript
