import SeqScript.CommandLine
import SeqScript.Proofs.Queries
import SeqScript.Proofs.Run.Failures

/-! What the check of an expression says about its evaluation. The two load the settings, read the text
and look at its names each in a way of its own, and agree on what is wrong before anything runs;
what fails later is a fault of running. -/
namespace SeqScript

def Fault.Early (f : Fault) : Prop := f.report.reportClass ∈ [.lexer, .parse, .validation]

theorem Fault.Running.notEarly {f : Fault} (running : f.Running) : ¬ f.Early := by
  simp [Early, running.1]

theorem Names.refusedFirst {τ : Type} (env : Environment τ) (n : Node) (s : τ) (f : Fault) :
    (check env n s).1 = .error f ↔ (collect env n s).1.head? = some f := by
  rw [checkAsks, collectAsks]
  exact Query.firstOfAll env n.queries s f

namespace Source

inductive Foretold (settings : Settings) (source : Text) (h : Heap) : Prop where
  | unread (f : Fault) (problems : problems settings source h = .error f)
      (evaluated : (evaluate settings source h).1 = .error (.fault f)) (early : f.Early)
      (silent : (evaluate settings source h).2.trace = [])
  | refused (f : Fault) (others : List Fault) (problems : problems settings source h = .ok (f :: others))
      (evaluated : (evaluate settings source h).1 = .error (.fault f)) (early : f.Early)
      (silent : (evaluate settings source h).2.trace = [])
  | runs (problems : problems settings source h = .ok [])
      (late : ∀ f, (evaluate settings source h).1 = .error (.fault f) → ¬ f.Early)

theorem foretoldUnread (settings : Settings) (h : Heap) {source : Text} {f : Fault}
    (read : Parser.script source = .error f) : Foretold settings source h := by
  have placed := Parser.scriptPlaced source
  rw [read] at placed
  have early : f.Early := by
    rcases placed with ⟨same, _⟩ | ⟨same, _⟩ <;> simp [Fault.Early, Fault.report, Report.make, same]
  refine .unread f ?_ ?_ early ?_
  · simp [problems, read]
  · simp [evaluate, evaluateWith, read]
  · simp [evaluate, evaluateWith, read, settingWith]

abbrev opening (settings : Settings) (h : Heap) : Context Unit × State Unit :=
  settingWith settings (some keepLogged) () h

abbrev openingNames (settings : Settings) (h : Heap) (script : Script) : Except Fault Unit :=
  Run.checkNames (opening settings h).1 (.script script) (opening settings h).2.store.bindings

section

variable (settings : Settings) (h : Heap) {source : Text} {script : Script}
  (read : Parser.script source = .ok script)
include read

theorem problemsOf : ∃ fs, problems settings source h = .ok fs ∧
    ∀ f, openingNames settings h script = .error f ↔ fs.head? = some f := by
  refine ⟨_, ?_, Names.refusedFirst .standard (.script script)
    (Run.knownNames (opening settings h).1 (opening settings h).2.store.bindings)⟩
  simp only [problems, read]
  rfl

theorem evaluateRefused {f : Fault} (refused : openingNames settings h script = .error f) :
    evaluate settings source h = (.error (.fault f), (opening settings h).2) := by
  simp only [openingNames, opening] at refused
  simp only [evaluate, evaluateWith, read]
  rw [refused]

theorem evaluateAccepted (accepted : openingNames settings h script = .ok ()) :
    evaluate settings source h = Run.execute (opening settings h).1 script (opening settings h).2 := by
  simp only [openingNames, opening] at accepted
  simp only [evaluate, evaluateWith, read]
  rw [accepted]

end

theorem foretold {settings : Settings} {h : Heap} (issued : h.Issued) (fixed : settings.Fixed h)
    (source : Text) : Foretold settings source h := by
  have placed := Parser.scriptPlaced source
  cases read : Parser.script source with
  | error f => exact foretoldUnread settings h read
  | ok script =>
    rw [read] at placed
    obtain ⟨fs, listed, agree⟩ := problemsOf settings h read
    cases checked : openingNames settings h script with
    | error f =>
      obtain ⟨others, rfl⟩ := List.head?_eq_some_iff.mp ((agree f).mp checked)
      have evaluated := evaluateRefused settings h read checked
      have early : f.Early := by
        simp [Fault.Early, Fault.report, Report.make, (Run.refusedNames checked).1]
      exact .refused f others listed (congrArg Prod.fst evaluated) early (by rw [evaluated]; rfl)
    | ok accepted =>
      have none : fs = [] := by
        cases fs with
        | nil => rfl
        | cons f others => cases checked.symm.trans ((agree f).mpr rfl)
      refine .runs (none ▸ listed) fun f stopped => ?_
      rw [evaluateAccepted settings h read checked] at stopped
      have quiet := contextQuiet settings h.newDomain.1 keepLoggedHarmless
      rcases Run.executeRunning quiet rfl (settingFit issued fixed (some keepLogged) ()) placed
        (Prod.ext stopped rfl) with ⟨g, same, running, _⟩ | ⟨kind, name, same, _⟩
      · cases same
        exact running.notEarly
      · cases same

end Source

namespace CommandLine

def FailsEarly (reader : Text → Option Data) (file : SettingsFile) (source : Text) : Prop :=
  (∃ fault, loadWith reader file = .error fault) ∨
    ∃ settings h f, loadWith reader file = .ok (settings, h) ∧
      (Source.evaluate (settings.getD .empty) source h).1 = .error (.fault f) ∧ f.Early

theorem loadedFixed {reader : Text → Option Data} {file : SettingsFile} {settings : Option Settings}
    {h : Heap} (loaded : loadWith reader file = .ok (settings, h)) :
    h.Issued ∧ (settings.getD .empty).Fixed h := by
  have unfrozen : Heap.empty.Issued := fun d frozen => by cases frozen
  unfold loadWith at loaded
  split at loaded
  · cases loaded
    exact ⟨unfrozen, fun _ => False, ⟨fun _ never => never.elim, fun _ never => never.elim⟩,
      fun p none => by cases none⟩
  · cases loaded
  · split at loaded
    · cases loaded
    · rename_i d _
      cases reads : Settings.read d .empty with
      | error fault =>
        rw [reads] at loaded
        cases loaded
      | ok result =>
        rw [reads] at loaded
        cases loaded
        obtain ⟨spares, fixed⟩ := Settings.readFixed reads
        exact ⟨spares.issued unfrozen, fixed⟩

theorem runsCheck (reader : Text → Option Data) (file : SettingsFile) (source : Text) :
    runWith reader [checkOption, optionsEnd, source] file =
      withSettings reader file fun s h => runCheck s h source := rfl

theorem runsEvaluate (reader : Text → Option Data) (file : SettingsFile) (source : Text) :
    runWith reader [optionsEnd, source] file =
      withSettings reader file fun s h => runEvaluate s h source := rfl

theorem checkUnread {settings : Settings} {h : Heap} {source : Text} {f : Fault}
    (problems : Source.problems settings source h = .error f) :
    runCheck settings h source = ⟨1, [], [f.report.line]⟩ := by simp [runCheck, problems]

theorem checkListed {settings : Settings} {h : Heap} {source : Text} {fs : List Fault}
    (problems : Source.problems settings source h = .ok fs) :
    runCheck settings h source =
      ⟨if fs.isEmpty then 0 else 1, [], fs.map fun f => f.report.line⟩ := by simp [runCheck, problems]

theorem evaluateStopped {settings : Settings} {h : Heap} {source : Text} {f : Fault}
    (evaluated : (Source.evaluate settings source h).1 = .error (.fault f))
    (silent : (Source.evaluate settings source h).2.trace = []) :
    runEvaluate settings h source = ⟨1, [], [f.report.line]⟩ := by
  unfold runEvaluate
  generalize Source.evaluate settings source h = ran at evaluated silent ⊢
  obtain ⟨outcome, state⟩ := ran
  have nothing : Source.loggedLines state.trace = [] := congrArg Source.loggedLines silent
  cases evaluated
  simp only [nothing]
  rfl

/-- The check and the evaluation of one source: both stop with the same first line before the source
runs, or the check finds nothing. -/
inductive Agreement (early : Prop) : Outcome → Outcome → Prop where
  | stops (holds : early) (line : Text) (others : List Text) :
      Agreement early ⟨1, [], line :: others⟩ ⟨1, [], [line]⟩
  | runs (fails : ¬ early) (evaluated : Outcome) : Agreement early ⟨0, [], []⟩ evaluated

theorem agreement (reader : Text → Option Data) (file : SettingsFile) (source : Text) :
    Agreement (FailsEarly reader file source)
      (runWith reader [checkOption, optionsEnd, source] file)
      (runWith reader [optionsEnd, source] file) := by
  rw [runsCheck, runsEvaluate]
  cases loaded : loadWith reader file with
  | error fault =>
    simp only [withSettings, loaded]
    exact .stops (.inl ⟨fault, loaded⟩) fault.message []
  | ok result =>
    obtain ⟨settings, h⟩ := result
    obtain ⟨issued, fixed⟩ := loadedFixed loaded
    simp only [withSettings, loaded]
    cases Source.foretold issued fixed source with
    | unread f problems evaluated early silent =>
      rw [checkUnread problems, evaluateStopped evaluated silent]
      exact .stops (.inr ⟨settings, h, f, loaded, evaluated, early⟩) _ _
    | refused f others problems evaluated early silent =>
      rw [checkListed problems, evaluateStopped evaluated silent]
      exact .stops (.inr ⟨settings, h, f, loaded, evaluated, early⟩) _ _
    | runs problems late =>
      rw [checkListed problems]
      refine .runs ?_ _
      rintro (⟨fault, failed⟩ | ⟨settings', h', f, loaded', evaluated, early⟩)
      · rw [loaded] at failed
        cases failed
      · rw [loaded] at loaded'
        cases loaded'
        exact late f evaluated early

/- Whatever reads the file of settings, the check fails exactly when the evaluation would fail before
it runs anything; its first line is then the one of the evaluation, and otherwise it has none. -/
theorem checkPredicts (reader : Text → Option Data) (file : SettingsFile) (source : Text) :
    ((runWith reader [checkOption, optionsEnd, source] file).code = 1 ↔
      FailsEarly reader file source) ∧
    (FailsEarly reader file source → ∃ line others,
      runWith reader [checkOption, optionsEnd, source] file = ⟨1, [], line :: others⟩ ∧
      runWith reader [optionsEnd, source] file = ⟨1, [], [line]⟩) ∧
    (¬ FailsEarly reader file source →
      runWith reader [checkOption, optionsEnd, source] file = ⟨0, [], []⟩) := by
  have agree := agreement reader file source
  generalize runWith reader [checkOption, optionsEnd, source] file = check at agree ⊢
  generalize runWith reader [optionsEnd, source] file = evaluated at agree ⊢
  cases agree with
  | stops holds line others =>
    exact ⟨⟨fun _ => holds, fun _ => rfl⟩, fun _ => ⟨line, others, rfl, rfl⟩,
      fun fails => absurd holds fails⟩
  | runs fails =>
    exact ⟨⟨fun one => (Nat.zero_ne_one one).elim, fun holds => absurd holds fails⟩,
      fun holds => absurd holds fails, fun _ => rfl⟩

def variableFile : SettingsFile := .content (text "variables:\n  x: [null]  # a tuple\n")

theorem calledVariableAccepted :
    ¬ FailsEarly Yaml.document variableFile (text "x()") ∧
      runWith Yaml.document [checkOption, optionsEnd, text "x()"] variableFile = ⟨0, [], []⟩ := by
  have opened : loadWith Yaml.document variableFile =
      .ok (some Source.oneTuple.1, Source.oneTuple.2) := by decide +kernel
  have evaluated : (Source.evaluate Source.oneTuple.1 (text "x()") Source.oneTuple.2).1 =
      .error (.fault ⟨.undefinedFunction (text "x"), some ⟨1, 1, 0⟩⟩) := Source.variableCallStops
  have fails : ¬ FailsEarly Yaml.document variableFile (text "x()") := by
    rintro (⟨fault, failed⟩ | ⟨settings, h, f, loaded, stopped, early⟩)
    · cases opened.symm.trans failed
    · cases opened.symm.trans loaded
      cases evaluated.symm.trans stopped
      revert early
      simp [Fault.Early, Fault.report, Report.make, Cause.reportClass, Cause.id, ErrorId.category,
        ErrorId.definition]
  exact ⟨fails, (checkPredicts Yaml.document variableFile (text "x()")).2.2 fails⟩

end CommandLine

end SeqScript
