import SeqScript.Proofs.Token.Places
import SeqScript.Proofs.Tree.Nodes
import SeqScript.Tree.Parser

/-! Where parsed trees stand. Every node of a parsed script begins at the start of some token, no
element slot is empty, and a refusal is located at a token. -/
namespace SeqScript

def Expr.Sound (place : Location → Prop) (e : Expr) : Prop :=
  e.All (fun d => place d.span.start) False

def Statement.Sound (place : Location → Prop) (s : Statement) : Prop :=
  place s.span.start ∧ s.expr.Sound place

namespace Parser

variable (place : Location → Prop)

def OperatorsSound (operators : Operators) : Prop := ∀ o ∈ operators, place o.2

def Frame.Sound : Frame → Prop
  | .subscript object outer => object.Sound place ∧ OperatorsSound place outer
  | .items _ start read outer =>
    place start ∧ (∀ e ∈ read, e.Sound place) ∧ OperatorsSound place outer

def Base.Sound : Base → Prop
  | .lone => False
  | .statement before => ∀ s ∈ before, s.Sound place
  | .assignment before _ start => (∀ s ∈ before, s.Sound place) ∧ place start

structure Nest.Sound (n : Nest) : Prop where
  base : n.base.Sound place
  frames : ∀ f ∈ n.frames, f.Sound place
  operators : OperatorsSound place n.operators

def State.Sound : State → Prop
  | .between before => ∀ s ∈ before, s.Sound place
  | .operand nest | .item nest => nest.Sound place
  | .target before _ span => (∀ s ∈ before, s.Sound place) ∧ place span.start
  | .name nest _ span => nest.Sound place ∧ place span.start
  | .value nest e | .spaced nest e => nest.Sound place ∧ e.Sound place
  | .script statements _ => ∀ s ∈ statements, s.Sound place
  | .lone _ => False

def Continues : Except Cause State → Prop
  | .ok s => s.Sound place
  | .error c => c.reportClass = .parse

variable {place}

theorem soundSpan {e : Expr} (sound : e.Sound place) : place e.span.start := Expr.All.root sound

theorem soundElements {items : List Expr} (sound : ∀ e ∈ items, e.Sound place) :
    Expr.AllSlots (fun d => place d.span.start) False (elements items) :=
  Expr.allSlotsOfElements sound

theorem soundWhole {o : Opening} {items : List Expr} {span : Span} (start : place span.start)
    (sound : ∀ e ∈ items, e.Sound place) : (o.whole items span).Sound place := by
  cases o with
  | list => exact ⟨start, soundElements sound⟩
  | group => exact ⟨start, soundElements sound⟩
  | call callee => exact ⟨start, Expr.allArgsIff.mpr sound⟩

theorem soundAppend {α : Type} {xs : List α} {x : α} {p : α → Prop} (all : ∀ y ∈ xs, p y)
    (last : p x) : ∀ y ∈ xs ++ [x], p y := by
  intro y member
  rcases List.mem_append.mp member with inside | at_
  · exact all y inside
  · cases List.mem_singleton.mp at_
    exact last

theorem soundWholeWithLast {o : Opening} {items : List Expr} {last : Expr} {span : Span}
    (start : place span.start) (sound : ∀ e ∈ items, e.Sound place) (final : last.Sound place) :
    (o.wholeWithLast items last span).Sound place := by
  unfold Opening.wholeWithLast
  split
  · exact final
  · exact soundWhole start (soundAppend sound final)

theorem soundApplyAll {operators : Operators} {e : Expr} (waiting : OperatorsSound place operators)
    (sound : e.Sound place) : (applyAll operators e).Sound place := by
  induction operators generalizing e with
  | nil => exact sound
  | cons o rest ih =>
    exact ih (fun p member => waiting p (List.mem_cons_of_mem o member))
      ⟨waiting o List.mem_cons_self, sound⟩

theorem finishStatementContinues {before : List Statement} {statement : Statement} {t : Token}
    (earlier : ∀ s ∈ before, s.Sound place) (sound : statement.Sound place) :
    Continues place (finishStatement before statement t) := by
  unfold finishStatement
  split
  · exact soundAppend earlier sound
  · exact soundAppend earlier sound
  · exact rfl

theorem baseFinishContinues {b : Base} {e : Expr} {t : Token} (base : b.Sound place)
    (sound : e.Sound place) : Continues place (b.finish e t) := by
  cases b with
  | lone => exact base.elim
  | statement before => exact finishStatementContinues base ⟨soundSpan sound, sound⟩
  | assignment before target start => exact finishStatementContinues base.1 ⟨base.2, sound⟩

theorem finishContinues {base : Base} {frames : List Frame} {e : Expr} {t : Token}
    (outside : base.Sound place) (around : ∀ f ∈ frames, f.Sound place) (sound : e.Sound place) :
    Continues place (finish base frames e t) := by
  cases frames with
  | nil => exact baseFinishContinues outside sound
  | cons f rest =>
    have others (g : Frame) (member : g ∈ rest) := around g (List.mem_cons_of_mem f member)
    have here := around f List.mem_cons_self
    cases f with
    | subscript object outer =>
      simp only [finish]
      split
      · have start : place object.span.start := soundSpan here.1
        exact ⟨⟨outside, others, here.2⟩, start, here.1, sound⟩
      · split
        · exact ⟨⟨outside, around, fun o none => by cases none⟩, sound⟩
        · exact rfl
    | items opening start read outer =>
      simp only [finish]
      split
      · exact ⟨⟨outside, others, here.2.2⟩, soundWholeWithLast here.1 here.2.1 sound⟩
      · split
        · refine ⟨outside, fun g member => ?_, fun o none => by cases none⟩
          rcases List.mem_cons.mp member with rfl | member
          · exact ⟨here.1, soundAppend here.2.1 sound, here.2.2⟩
          · exact others g member
        · split
          · exact ⟨⟨outside, around, fun o none => by cases none⟩, sound⟩
          · exact rfl

theorem openedSound {nest : Nest} {f : Frame} (inside : nest.Sound place) (opened : f.Sound place) :
    Nest.Sound place ⟨nest.base, f :: nest.frames, []⟩ where
  base := inside.base
  frames g member := by
    rcases List.mem_cons.mp member with rfl | member
    · exact opened
    · exact inside.frames g member
  operators o none := by cases none

theorem behindValueContinues {nest : Nest} {e : Expr} {t : Token} (inside : nest.Sound place)
    (sound : e.Sound place) : Continues place (behindValue nest e t) := by
  unfold behindValue
  split
  · exact openedSound inside ⟨sound, inside.operators⟩
  · exact finishContinues inside.base inside.frames (soundApplyAll inside.operators sound)

theorem behindNameContinues {nest : Nest} {name : Text} {span : Span} {t : Token}
    (inside : nest.Sound place) (start : place span.start) :
    Continues place (behindName nest name span t) := by
  unfold behindName
  split
  · exact openedSound inside ⟨start, (fun e none => by cases none), inside.operators⟩
  · exact behindValueContinues inside start

theorem beginOperandContinues {nest : Nest} {t : Token} (inside : nest.Sound place)
    (start : place t.span.start) : Continues place (beginOperand nest t) := by
  have waiting (op : UnaryOp) : Nest.Sound place
      { nest with operators := (op, t.span.start) :: nest.operators } :=
    { inside with
      operators := fun o member => (List.mem_cons.mp member).elim (fun same => same ▸ start)
        (inside.operators o) }
  have opened (o : Opening) : Nest.Sound place
      ⟨nest.base, .items o t.span.start [] nest.operators :: nest.frames, []⟩ :=
    openedSound inside ⟨start, (fun e none => by cases none), inside.operators⟩
  unfold beginOperand
  cases t.kind <;> first
    | exact waiting _
    | exact opened _
    | exact ⟨inside, start⟩
    | exact rfl

theorem beginItemContinues {nest : Nest} {t : Token} (inside : nest.Sound place)
    (start : place t.span.start) : Continues place (beginItem nest t) := by
  unfold beginItem
  split
  · exact inside
  · split
    · rename_i opening first read outer rest frames
      have around := inside.frames
      rw [frames] at around
      have here := around _ List.mem_cons_self
      split
      · exact ⟨⟨inside.base, fun g member => around g (List.mem_cons_of_mem _ member), here.2.2⟩,
          soundWhole here.1 here.2.1⟩
      · exact beginOperandContinues inside start
    · exact beginOperandContinues inside start

theorem statementNestSound {before : List Statement} (earlier : ∀ s ∈ before, s.Sound place) :
    (Base.statement before).nest.Sound place where
  base := earlier
  frames f none := by cases none
  operators o none := by cases none

theorem advanceContinues {s : State} {t : Token} (sound : s.Sound place)
    (start : place t.span.start) : Continues place (advance s t) := by
  cases s with
  | between before =>
    simp only [advance, beginStatement]
    split
    · exact sound
    · exact sound
    · exact ⟨sound, start⟩
    · exact beginOperandContinues (statementNestSound sound) start
  | operand nest => exact beginOperandContinues sound start
  | item nest => exact beginItemContinues sound start
  | target before name span =>
    simp only [advance, behindTarget]
    split
    · exact ⟨⟨sound.1, sound.2⟩, (fun f none => by cases none), (fun o none => by cases none)⟩
    · exact behindNameContinues (statementNestSound sound.1) sound.2
  | name nest name span => exact behindNameContinues sound.1 sound.2
  | value nest e => exact behindValueContinues sound.1 sound.2
  | spaced nest e => exact finishContinues sound.1.base sound.1.frames sound.2
  | script statements stop => exact sound
  | lone e => exact sound.elim

theorem finishEnds {base : Base} {frames : List Frame} {e : Expr} {t : Token} {s : State}
    (outside : base.Sound place) (ends : t.kind = .endOfInput)
    (moved : finish base frames e t = .ok s) : ∃ statements stop, s = .script statements stop := by
  cases frames with
  | nil =>
    cases base with
    | lone => exact outside.elim
    | statement before =>
      simp only [finish, Base.finish, finishStatement, ends] at moved
      exact ⟨_, _, (Except.ok.inj moved).symm⟩
    | assignment before target start =>
      simp only [finish, Base.finish, finishStatement, ends] at moved
      exact ⟨_, _, (Except.ok.inj moved).symm⟩
  | cons f rest =>
    cases f with
    | subscript object outer => simp [finish, ends] at moved
    | items opening start read outer =>
      cases opening <;> simp [finish, ends, Opening.closer, Closer.kind] at moved

theorem beginOperandEnds {nest : Nest} {t : Token} {s : State} (ends : t.kind = .endOfInput)
    (moved : beginOperand nest t = .ok s) : False := by
  simp [beginOperand, ends] at moved

theorem behindValueEnds {nest : Nest} {e : Expr} {t : Token} {s : State}
    (inside : nest.Sound place) (ends : t.kind = .endOfInput)
    (moved : behindValue nest e t = .ok s) : ∃ statements stop, s = .script statements stop := by
  rw [behindValue, if_neg (by simp [ends])] at moved
  exact finishEnds inside.base ends moved

theorem behindNameEnds {nest : Nest} {name : Text} {span : Span} {t : Token} {s : State}
    (inside : nest.Sound place) (ends : t.kind = .endOfInput)
    (moved : behindName nest name span t = .ok s) : ∃ statements stop, s = .script statements stop := by
  rw [behindName, if_neg (by simp [ends])] at moved
  exact behindValueEnds inside ends moved

theorem advanceEnds {s s' : State} {t : Token} (sound : s.Sound place) (ends : t.kind = .endOfInput)
    (moved : advance s t = .ok s') : ∃ statements stop, s' = .script statements stop := by
  cases s with
  | between before =>
    simp only [advance, beginStatement, ends] at moved
    exact ⟨_, _, (Except.ok.inj moved).symm⟩
  | operand nest => exact (beginOperandEnds ends moved).elim
  | item nest =>
    simp only [advance, beginItem, ends] at moved
    split at moved
    · contradiction
    · split at moved
      · rename_i opening _ _ _ _ _
        split at moved
        · cases opening <;> rename_i closes <;> cases closes
        · exact (beginOperandEnds ends moved).elim
      · exact (beginOperandEnds ends moved).elim
  | target before name span =>
    rw [advance, behindTarget, if_neg (by simp [ends])] at moved
    exact behindNameEnds (statementNestSound sound.1) ends moved
  | name nest name span => exact behindNameEnds sound.1 ends moved
  | value nest e => exact behindValueEnds sound.1 ends moved
  | spaced nest e => exact finishEnds sound.1.base ends moved
  | script statements stop => exact ⟨statements, stop, (Except.ok.inj moved).symm⟩
  | lone e => exact sound.elim

def Ends (place : Location → Prop) : Except Fault State → Prop
  | .ok s => s.Sound place
  | .error f => f.cause.reportClass = .parse ∧ ∃ l, f.location = some l ∧ place l

theorem runEnds {s : State} {ts : List Token} (sound : s.Sound place)
    (starts : ∀ t ∈ ts, place t.span.start) : Ends place (run s ts) := by
  induction ts generalizing s with
  | nil => exact sound
  | cons t ts ih =>
    have start := starts t List.mem_cons_self
    have continues := advanceContinues sound start
    cases moved : advance s t with
    | ok next =>
      rw [moved] at continues
      have same : run s (t :: ts) = run next ts := by
        simp [run, step, moved, bind, Except.bind]
      rw [same]
      exact ih continues fun u member => starts u (List.mem_cons_of_mem t member)
    | error c =>
      rw [moved] at continues
      have same : run s (t :: ts) = .error ⟨c, some t.span.start⟩ := by
        simp [run, step, moved, bind, Except.bind]
      rw [same]
      exact ⟨continues, _, rfl, start⟩

theorem scriptPlaced (source : Text) :
    match script source with
    | .ok s => ∀ statement ∈ s.statements, statement.Sound (Location.LiesIn source)
    | .error f => f.IsAt source .lexer ∨ f.IsAt source .parse := by
  have placed := Lexer.tokenizePlaced source
  unfold script
  generalize Lexer.tokenize source = tokens at placed
  cases tokens with
  | error f => exact .inl placed
  | ok ts =>
    obtain ⟨starts, before, last, rfl, ends⟩ := placed
    have empty : (State.between []).Sound (Location.LiesIn source) := fun s none => by cases none
    have first := runEnds empty fun t member =>
      (starts t (List.mem_append_left [last] member)).1
    have whole := runEnds empty fun t member => (starts t member).1
    have split : run (.between []) (before ++ [last]) = (run (.between []) before >>= fun s => step s last) := by
      simp [run, List.foldlM_append]
    dsimp only
    unfold scriptOfTokens
    rw [split] at whole ⊢
    generalize run (.between []) before = middle at first whole ⊢
    cases middle with
    | error f => exact .inr first
    | ok s =>
      simp only [bind, Except.bind, step] at whole ⊢
      cases moved : advance s last with
      | error c =>
        rw [moved] at whole
        exact .inr whole
      | ok s' =>
        rw [moved] at whole
        obtain ⟨statements, stop, rfl⟩ := advanceEnds first ends moved
        exact whole

end Parser

end SeqScript
