import SeqScript.Proofs.Run.Failures
import SeqScript.Proofs.Run.TwinRuns
import SeqScript.Proofs.SettingsCopies

/-! Runs under one configuration. What a configuration holds is tuples, which no run changes; lists and
domains are new in each run. So a run comes out as if its configuration had just been read and no run
had been before it. -/
namespace SeqScript
open List (Forall₂)
open Stepper (runFrom)

namespace Source

/-- All that can be told of an evaluation without naming a reference: the output, the names and the
shapes of its result, or the reason why it stopped, and what it has logged. -/
structure Outcome where
  result : Except Stop (Text × List Text × List Shape)
  told : List Told

def seenResult (h : Heap) (r : RunResult) : Text × List Text × List Shape :=
  (h.output r.value, r.bindings.names, h.shapes (r.value :: r.bindings.map Prod.snd))

def outcome (run : Except Stop RunResult × State Unit) : Outcome where
  result := run.1.map (seenResult run.2.store.heap)
  told := run.2.trace.filterMap Entry.told?

def evaluateAll (settings : Settings) (onLog : Option (Listener Unit)) :
    List Text → Heap → List (Except Stop RunResult × State Unit)
  | [], _ => []
  | source :: rest, h =>
    let run := evaluateWith settings onLog () source h
    run :: evaluateAll settings onLog rest run.2.store.heap

end Source

variable {ctx : Context Unit} {e : Domain} {paired : Ref → Ref → Prop}

theorem twinOutcomes {d : Domain} {s t : State Unit} (twins : State.Twins d e paired s t)
    (stop : Stop) : Source.outcome (.error stop, s) = Source.outcome (.error stop, t) :=
  congrArg (Source.Outcome.mk (.error stop)) twins.told

theorem behindTwins {owners : Domain → Domain → Prop} {h k : Heap} (mirrors : h.Mirrors owners paired k)
    {v w : Value} (values : v.Mirrors paired w) : RunResult.behind? h v = RunResult.behind? k w := by
  cases values with
  | scalar => rfl
  | object pair => exact congrArg some (mirrors.kind pair)

theorem blockedTwins {owners : Domain → Domain → Prop} {h k : Heap}
    (mirrors : h.Mirrors owners paired k) {b c : Bindings Value} (alike : Bindings.Mirror paired b c)
    (behind : Option SequenceKind) :
    RunResult.blocked? h behind b = RunResult.blocked? k behind c := by
  induction alike generalizing behind with
  | nil => rfl
  | cons first _ ih =>
    rw [RunResult.blocked?, RunResult.blocked?, first.1, behindTwins mirrors first.2, ih]

theorem resultTwins {st st' : Stepper} (steppers : Stepper.Twins paired st st') {d : Domain}
    {s t : State Unit} (twins : State.Twins d e paired s t) :
    (st.result s.store).map (Source.seenResult s.store.heap) =
      (st'.result t.store).map (Source.seenResult t.store.heap) := by
  have held := twins.stores.bindings.held
  have mirrors := twins.stores.heaps.mirrors
  have output := mirrors.output steppers.lastValue
  have shapes := mirrors.shapes (.cons steppers.lastValue held.values)
  rw [Stepper.result, Stepper.result, RunResult.collect, RunResult.collect,
    blockedTwins mirrors twins.stores.bindings]
  split
  · rfl
  · simp only [Except.map, Source.seenResult, output, shapes, held.names]

theorem executeTwins (alone : ctx.Alone) (script : Script) {s t : State Unit}
    (twins : State.Twins ctx.domain e paired s t) :
    Source.outcome (Run.execute ctx script s) = Source.outcome (Run.execute (ctx.moved e) script t) := by
  have first : Stepper.Twins paired (.ofScript script) (.ofScript script) :=
    ⟨rfl, rfl, rfl, rfl, .scalar .none⟩
  have ends := stepAllTwins alone (Stepper.ofScript script).remaining.length first twins
  unfold Run.execute
  dsimp only
  generalize Stepper.stepAll ctx (Stepper.ofScript script).remaining.length (.ofScript script) s = x,
    Stepper.stepAll (ctx.moved e) (Stepper.ofScript script).remaining.length (.ofScript script) t = y
    at ends
  cases ends with
  | @stopped stop st st' s' t' further more twins =>
    cases stop with
    | stalled => exact twinOutcomes twins _
    | fault | failure | thrown | foreign | unreadable => exact twinOutcomes twins.freeze _
  | goesOn more steppers twins =>
    have result := resultTwins steppers twins.freeze
    simp only [Stepper.result, Stepper.freeze, RunResult.collectFrozen] at result
    exact congrArg₂ Source.Outcome.mk result twins.told

namespace Source

def Logs (onLog : Option (Listener Unit)) : Prop := onLog = none ∨ onLog = some keepLogged

variable {onLog : Option (Listener Unit)}

theorem Logs.harmless (logs : Logs onLog) : Harmless onLog := by
  rcases logs with rfl | rfl
  · rintro listener ⟨⟩
  · exact keepLoggedHarmless

theorem Logs.alone (logs : Logs onLog) (settings : Settings) (d : Domain) :
    (settings.context d onLog).Alone where
  noHost := (contextQuiet settings d logs.harmless).noHost
  silent _ other := if_neg other
  logged := logs

theorem contextMoved {s t : Settings} (alike : Settings.Mirror paired s t) (d e : Domain) :
    t.context e onLog = (s.context d onLog).moved e := by
  simp only [Settings.context, Context.moved, Settings.limits, Context.plain, alike.timeout,
    alike.diagnostics]

theorem boundMirror {s t : Settings} (alike : Settings.Mirror paired s t) :
    Bindings.Mirror paired (s.bindings.getD []) (t.bindings.getD []) := by
  have bindings := alike.bindings
  generalize s.bindings = b, t.bindings = c at bindings ⊢
  cases bindings with
  | some held => exact held
  | none => exact .nil

theorem settingTwins (onLog : Option (Listener Unit)) {s t : Settings}
    (alike : Settings.Mirror paired s t) {h k : Heap} (mirrors : h.Mirrors NoOwners paired k)
    (left : h.Issued) (right : k.Issued) :
    State.Twins h.newDomain.1 k.newDomain.1 paired (settingWith s onLog () h).2
      (settingWith t onLog () k).2 := by
  have opened : h.newDomain.2.Mirrors NoOwners paired k.newDomain.2 := mirrors.sameObjects rfl rfl
  have heaps : h.newDomain.2.Twins h.newDomain.1 k.newDomain.1 paired k.newDomain.2 :=
    ⟨opened.weaken fun _ _ => False.elim, left.newFree.trans right.newFree.symm⟩
  exact ⟨⟨heaps, boundMirror alike, rfl⟩, rfl⟩

theorem checkedSame (onLog : Option (Listener Unit)) {s t : Settings}
    (alike : Settings.Mirror paired s t) (h k : Heap) (script : Script) :
    Run.checkNames (settingWith s onLog () h).1 (.script script) (s.bindings.getD []) =
      Run.checkNames (settingWith t onLog () k).1 (.script script) (t.bindings.getD []) := by
  have names := (boundMirror alike).names
  have functions : (settingWith s onLog () h).1.functions = (settingWith t onLog () k).1.functions := rfl
  rw [Run.checkNames, Run.checkNames, Run.knownNames, Run.knownNames, names, functions]

theorem evaluateTwins (logs : Logs onLog) {s t : Settings} (alike : Settings.Mirror paired s t)
    {h k : Heap} (mirrors : h.Mirrors NoOwners paired k) (left : h.Issued) (right : k.Issued)
    (source : Text) :
    outcome (evaluateWith s onLog () source h) = outcome (evaluateWith t onLog () source k) := by
  have twins := settingTwins onLog alike mirrors left right
  unfold evaluateWith
  dsimp only
  cases Parser.script source with
  | error f => exact twinOutcomes twins _
  | ok script =>
    have same : Run.checkNames (settingWith s onLog () h).1 (.script script)
          (settingWith s onLog () h).2.store.bindings =
        Run.checkNames (settingWith t onLog () k).1 (.script script)
          (settingWith t onLog () k).2.store.bindings := checkedSame onLog alike h k script
    dsimp only
    rw [same]
    cases Run.checkNames (settingWith t onLog () k).1 (.script script)
      (settingWith t onLog () k).2.store.bindings with
    | error f => exact twinOutcomes twins _
    | ok accepted =>
      have moved : (settingWith t onLog () k).1 = (s.context h.newDomain.1 onLog).moved k.newDomain.1 :=
        contextMoved alike h.newDomain.1 k.newDomain.1
      dsimp only
      rw [moved]
      exact executeTwins (logs.alone s h.newDomain.1) script twins

theorem evaluateAllTwins (logs : Logs onLog) {s t : Settings} (alike : Settings.Mirror paired s t)
    {k : Heap} (right : k.Issued) (sources : List Text) {h : Heap}
    (mirrors : h.Mirrors NoOwners paired k) (left : h.Issued) :
    (evaluateAll s onLog sources h).map outcome =
      sources.map fun source => outcome (evaluateWith t onLog () source k) := by
  induction sources generalizing h with
  | nil => rfl
  | cons source rest ih =>
    obtain ⟨keeps, issued⟩ := evaluateKeeps s logs.harmless () source left
    have others := ih (mirrors.keeps keeps (.refl k)) issued
    simp only [evaluateAll, List.map_cons, others]
    rw [evaluateTwins logs alike mirrors left right source]

/- Settings that can be read in one heap can be read in every heap, whatever was done there before.
Sources that are evaluated one after another under the settings that were read once come out one by
one as each of them does alone, under the same settings read anew: with the same output, the same
variables of the same shapes and the same logged values, or with the same reason to stop. -/
theorem runsApart {d : Data} {settings : Settings} {h₁ h : Heap} (issued : h₁.Issued)
    (reads : Settings.read d h₁ = .ok (settings, h)) (logs : Logs onLog) (sources : List Text)
    {h₂ : Heap} (other : h₂.Issued) :
    ∃ again k, Settings.read d h₂ = .ok (again, k) ∧
      (evaluateAll settings onLog sources h).map outcome =
        sources.map fun source => outcome (evaluateWith again onLog () source k) := by
  obtain ⟨again, k, paired, rereads, mirrors, alike⟩ := Settings.readAgain reads h₂
  have left := (Settings.readFixed reads).1.issued issued
  have right := (Settings.readFixed rereads).1.issued other
  exact ⟨again, k, rereads, evaluateAllTwins logs alike right sources mirrors left⟩

theorem bindsApart :
    Heap.empty.Issued ∧ Settings.read oneVariable .empty = .ok oneTuple ∧ Logs (some keepLogged) ∧
    ∃ again k, Settings.read oneVariable oneTuple.2 = .ok (again, k) ∧
      (evaluateAll oneTuple.1 (some keepLogged) [text "y = [x]", text "y"] oneTuple.2).map outcome =
        [outcome (evaluateWith again (some keepLogged) () (text "y = [x]") k),
          outcome (evaluateWith again (some keepLogged) () (text "y") k)] := by
  have unfrozen (objects : Array Object) : Heap.Issued ⟨objects, 0, []⟩ := fun d frozen => by cases frozen
  have reads : Settings.read oneVariable .empty = .ok oneTuple := rfl
  have logs : Logs (some keepLogged) := .inr rfl
  exact ⟨unfrozen _, reads, logs, runsApart (unfrozen _) reads logs [text "y = [x]", text "y"] (unfrozen _)⟩

end Source

end SeqScript
