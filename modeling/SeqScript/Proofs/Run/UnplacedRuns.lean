import SeqScript.Proofs.Run.Unplaced

/-! Steps and whole runs of scripts that differ in their places only. The runs are in one state as long
as they go on; where they stop, all that differs is what the fault and the event that tells it say of
the place. -/
namespace SeqScript
open Stepper (runFrom)

variable {σ : Type}

theorem runEmit {ctx : Context σ} {kind : EventKind} {e : Event} {listener : Listener σ}
    (there : ctx.listener kind = some listener) (s : State σ) :
    runFrom s (Eval.emit ctx kind e) = ((listener e s.store).1.elim (.ok ()) .error,
      { s.noting e with store := (listener e s.store).2 }) := by
  have told : Ensures s (Eval.emit ctx kind e)
      (fun _ t => (listener e s.store).1 = none ∧
        t = { s.noting e with store := (listener e s.store).2 })
      fun stop t => (listener e s.store).1 = some stop ∧
        t = { s.noting e with store := (listener e s.store).2 } := by
    refine Eval.ensuresEmit (fun nobody => ?_) (fun other found goes => ?_)
      fun other stop found stops => ?_
    · rw [there] at nobody
      cases nobody
    · cases there.symm.trans found
      exact ⟨goes, rfl⟩
    · cases there.symm.trans found
      exact ⟨stops, rfl⟩
  rcases told.outcome with ⟨_, _, run, goes, rfl⟩ | ⟨stop, _, run, stops, rfl⟩
  · rw [goes]
    exact run
  · rw [stops]
    exact run

namespace Stepper

structure Alike (st st' : Stepper) : Prop where
  remaining : st.remaining.map Statement.bare = st'.remaining.map Statement.bare
  index : st.index = st'.index
  total : st.total = st'.total
  lastValue : st.lastValue = st'.lastValue
  done : st.done = st'.done

inductive SameStep {α : Type} :
    Except Stop α × Stepper × State σ → Except Stop α × Stepper × State σ → Prop where
  | goesOn (a : α) {st st' : Stepper} (steppers : st.Alike st') (s : State σ) :
      SameStep (.ok a, st, s) (.ok a, st', s)
  | stopped {stop stop' : Stop} (stops : stop.Alike stop') (st st' : Stepper) {s t : State σ}
      (states : s.Alike t) : SameStep (.error stop, st, s) (.error stop', st', t)

theorem ofScriptAlike {x y : Script} (same : x.bare = y.bare) : (ofScript x).Alike (ofScript y) := by
  have remaining : x.statements.map Statement.bare = y.statements.map Statement.bare :=
    congrArg Script.statements same
  have total : x.statements.length = y.statements.length := by
    simpa using congrArg List.length remaining
  have empty : x.statements.isEmpty = y.statements.isEmpty := by
    simpa using congrArg List.isEmpty remaining
  exact ⟨remaining, rfl, total, rfl, empty⟩

variable {ctx : Context σ} (unplaced : ctx.Unplaced) {st st' : Stepper}
include unplaced

theorem emitFailed (index : Nat) {stop stop' : Stop} (stops : stop.Alike stop') {s t : State σ}
    (states : s.Alike t) :
    EndsAlike (runFrom s (Eval.emit ctx .failed (.failed index stop))).1
        (runFrom t (Eval.emit ctx .failed (.failed index stop'))).1 ∧
      (runFrom s (Eval.emit ctx .failed (.failed index stop))).2.Alike
        (runFrom t (Eval.emit ctx .failed (.failed index stop'))).2 := by
  obtain ⟨store, trace⟩ := s
  obtain ⟨store', trace'⟩ := t
  obtain ⟨same, told⟩ := states
  cases same
  cases there : ctx.listener .failed with
  | none =>
    rw [Eval.emit, Eval.emit, there]
    exact ⟨.value (), rfl, told⟩
  | some listener =>
    have entries : Entry.Alike ⟨.failed index stop, store.heap⟩ ⟨.failed index stop', store.heap⟩ :=
      ⟨.failed index stops, rfl⟩
    have longer := List.rel_append told (.cons entries .nil)
    obtain ⟨raised, stores⟩ := unplaced.listener listener there index stop stop' store stops
    rw [runEmit there, runEmit there]
    dsimp only
    generalize listener (.failed index stop) store = x,
      listener (.failed index stop') store = y at raised stores
    obtain ⟨other, after⟩ := x
    obtain ⟨other', after'⟩ := y
    cases stores
    cases raised with
    | none => exact ⟨.value (), rfl, longer⟩
    | some others => exact ⟨.stopped others, rfl, longer⟩

theorem tellFailedAlike (index : Nat) {stop stop' : Stop} (stops : stop.Alike stop') {s t : State σ}
    (states : s.Alike t) :
    EndsAlike (runFrom s (tellFailed ctx index stop)).1 (runFrom t (tellFailed ctx index stop')).1 ∧
      (runFrom s (tellFailed ctx index stop)).2.Alike (runFrom t (tellFailed ctx index stop')).2 := by
  have told := emitFailed unplaced index stops states
  have unread := stops.unread
  unfold tellFailed
  cases ctx.listener .failed with
  | none => exact told
  | some listener =>
    generalize stop.unread? = read, stop'.unread? = read' at unread
    cases unread with
    | none => exact told
    | some instead => exact ⟨.stopped instead, states⟩

theorem failAlike (same : st.index = st'.index) {stop stop' : Stop} (stops : stop.Alike stop')
    {s t : State σ} (states : s.Alike t) : SameStep (fail ctx st stop s) (fail ctx st' stop' t) := by
  obtain ⟨ends, after⟩ := tellFailedAlike unplaced st.index stops (states.freeze ctx.domain)
  unfold fail
  rw [← same]
  by_cases waits : stop = .stalled
  · rw [if_pos waits, if_pos (stops.stalled.mp waits)]
    exact .stopped stops st st' states
  · rw [if_neg waits, if_neg fun other => waits (stops.stalled.mpr other)]
    generalize runFrom (freeze ctx.domain s) (tellFailed ctx st.index stop) = x,
      runFrom (freeze ctx.domain t) (tellFailed ctx st.index stop') = y at ends after
    obtain ⟨ended, after⟩ := x
    obtain ⟨ended', after'⟩ := y
    cases ends with
    | value => exact .stopped stops _ _ after
    | stopped others => exact .stopped others _ _ after

theorem succeedAlike (steppers : st.Alike st') {rest rest' : List Statement}
    (remaining : rest.map Statement.bare = rest'.map Statement.bare) (v : Value) (s : State σ) :
    SameStep (succeed ctx st rest v s) (succeed ctx st' rest' v s) := by
  have last : rest.isEmpty = rest'.isEmpty := by
    rw [← List.isEmpty_map (f := Statement.bare), remaining, List.isEmpty_map]
  unfold succeed
  dsimp only
  rw [← steppers.index, ← steppers.total, ← last]
  split
  · refine failAlike unplaced ?_ (.same _) (.refl _)
    rfl
  · refine .goesOn _ ?_ _
    exact ⟨remaining, rfl, rfl, rfl, rfl⟩

theorem stepAlike (steppers : st.Alike st') (s : State σ) :
    SameStep (step ctx st s) (step ctx st' s) := by
  obtain ⟨waiting, index, total, last, ended⟩ := st
  obtain ⟨waiting', index', total', last', ended'⟩ := st'
  obtain ⟨same, rfl, rfl, rfl, rfl⟩ := steppers
  have finished : Alike ⟨waiting, index, total, last, true⟩ ⟨waiting', index, total, last, true⟩ :=
    ⟨same, rfl, rfl, rfl, rfl⟩
  unfold step
  cases ended with
  | true => exact .goesOn _ finished _
  | false =>
    match waiting, waiting' with
    | [], [] => exact .goesOn _ finished _
    | x :: rest, y :: rest' =>
      obtain ⟨first, remaining⟩ := List.cons.inj same
      dsimp only
      split
      · exact .stopped ((Cause.plainWords rfl rfl).alike _ _) _ _ (.refl _)
      · split
        · exact .stopped (.same _) _ _ (.refl _)
        · rename_i t _
          have runs := Parallel.statement unplaced first t
          generalize runFrom t (Eval.statement ctx x) = a, runFrom t (Eval.statement ctx y) = b at runs
          cases runs with
          | value v u => exact succeedAlike unplaced ⟨same, rfl, rfl, rfl, rfl⟩ remaining v u
          | stopped stops u =>
            refine failAlike unplaced ?_ stops (.refl u)
            rfl

theorem stepAllAlike (n : Nat) (steppers : st.Alike st') (s : State σ) :
    SameStep (stepAll ctx n st s) (stepAll ctx n st' s) := by
  induction n generalizing st st' s with
  | zero => exact .goesOn () steppers s
  | succ n ih =>
    have steps := stepAlike unplaced steppers s
    unfold stepAll
    rw [← steppers.done]
    split
    · exact .goesOn () steppers s
    · generalize step ctx st s = x, step ctx st' s = y at steps
      cases steps with
      | goesOn _ steppers s => exact ih steppers s
      | stopped stops st st' states => exact .stopped stops st st' states

end Stepper

/- Scripts that differ in their places only run alike in a context that makes no use of places. The
states that they end in have the same heap, the same variables and the same trace, save what the event
of a failed step tells of places; and they have one value, or stop for reasons that are alike. -/
theorem spansIrrelevant {ctx : Context σ} (unplaced : ctx.Unplaced) {x y : Script}
    (same : x.bare = y.bare) (start : State σ) :
    EndsAlike (Run.execute ctx x start).1 (Run.execute ctx y start).1 ∧
      (Run.execute ctx x start).2.Alike (Run.execute ctx y start).2 := by
  have begins := Stepper.ofScriptAlike same
  have steps := Stepper.stepAllAlike unplaced (Stepper.ofScript x).remaining.length begins start
  have left : (Stepper.ofScript y).remaining.length = (Stepper.ofScript x).remaining.length :=
    begins.total.symm
  unfold Run.execute
  dsimp only
  rw [left]
  generalize Stepper.stepAll ctx (Stepper.ofScript x).remaining.length (.ofScript x) start = a,
    Stepper.stepAll ctx (Stepper.ofScript x).remaining.length (.ofScript y) start = b at steps
  cases steps with
  | @goesOn _ st st' steppers s =>
    have results : st.result s.store = st'.result s.store :=
      congrArg (RunResult.collect _ · _) steppers.lastValue
    dsimp only
    rw [results]
    exact ⟨.refl _, .refl _⟩
  | @stopped stop stop' stops st st' s t states =>
    cases stops with
    | fault cause reports => exact ⟨.stopped (.fault cause reports), states.freeze ctx.domain⟩
    | same =>
      cases stop with
      | stalled => exact ⟨.stopped (.same _), states⟩
      | fault | failure | thrown | foreign | unreadable =>
        exact ⟨.stopped (.same _), states.freeze ctx.domain⟩
    | unreadable read => exact ⟨.stopped (.unreadable read), states.freeze ctx.domain⟩

def answersNone : HostFunction (List Text) := fun _ s => (.value .none, s)

def keepsKinds : Listener (List Text) := fun e s =>
  match e with
  | .failed _ stop => (none, { s with host := s.host ++ [stop.name] })
  | _ => (none, s)

def kindsKept : Context (List Text) :=
  { (Context.plain 0 : Context (List Text)) with
    functions := Context.functionsWith [(text "f", answersNone)]
    listener := fun _ => some keepsKinds }

def emptySlot (list call : Span) : Script :=
  ⟨[.expression (.sequence .list [some (.call (text "f") [] call), none] list) list], .synthetic⟩

theorem kindsKeptUnplaced : kindsKept.Unplaced where
  functions name f there := by
    have functions : kindsKept.functions = Context.functionsWith [(text "f", answersNone)] := rfl
    cases Context.hostFound there functions
    exact fun args l l' d s => ⟨.same _, rfl⟩
  listener listener there index stop stop' s stops := by
    cases Option.some.inj there
    have kinds : stop.name = stop'.name := by
      cases stops with
      | fault cause reports => exact congrArg ReportClass.name reports.reportClass
      | same | unreadable => rfl
    refine ⟨.none, ?_⟩
    simp only [keepsKinds, kinds]

theorem emptySlotUnplaced :
    kindsKept.Unplaced ∧
    (emptySlot ⟨.first, .first⟩ .synthetic).bare = (emptySlot .synthetic ⟨.first, .first⟩).bare ∧
    ∃ (start s t : State (List Text)) (f g : Fault),
      Run.execute kindsKept (emptySlot ⟨.first, .first⟩ .synthetic) start = (.error (.fault f), s) ∧
      Run.execute kindsKept (emptySlot .synthetic ⟨.first, .first⟩) start = (.error (.fault g), t) ∧
      f.location = some .first ∧ g.location = none ∧ f.report.Alike g.report ∧ s.Alike t ∧
      s.store.host = [text "RuntimeError"] := by
  have bare : (emptySlot ⟨.first, .first⟩ .synthetic).bare =
      (emptySlot .synthetic ⟨.first, .first⟩).bare := rfl
  obtain ⟨ends, states⟩ := spansIrrelevant kindsKeptUnplaced bare ⟨⟨.empty, [], false, []⟩, []⟩
  refine ⟨kindsKeptUnplaced, bare, _, _, _, _, _, rfl, rfl, rfl, rfl, ?_, states, rfl⟩
  exact EndsAlike.reports ends

end SeqScript
