import SeqScript.Proofs.Names
import SeqScript.Proofs.Run.Reasons
import SeqScript.Proofs.Run.Region
import SeqScript.Proofs.Settings
import SeqScript.Proofs.Tree.Places
import SeqScript.Run.Source

/-! How the evaluation of a source text fails. Whatever the settings and the text, it has a value or
stops with one of few faults, each at a place in the text. -/
namespace SeqScript
open Relation (ReflTransGen)
open Stepper (runFrom)

variable {σ : Type}

/-- A fault of the lexer, the parser or the check of names, or a missing name, a wrong type or an
index out of range while the script runs. -/
def Fault.Expected (f : Fault) : Prop :=
  f.report.reportClass ∈ [.lexer, .parse, .validation] ∧
      f.report.id.code ∉ [text "SKIFF-R001", text "SKIFF-R005", text "SKIFF-R006", text "SKIFF-R008"] ∨
    f.report.reportClass = .runtime ∧
      f.report.id.code ∈ [text "SKIFF-R002", text "SKIFF-R003", text "SKIFF-R004", text "SKIFF-R007"]

def Fault.Running (f : Fault) : Prop :=
  f.report.reportClass = .runtime ∧
    f.report.id.code ∈ [text "SKIFF-R002", text "SKIFF-R003", text "SKIFF-R004", text "SKIFF-R007"]

namespace Fault

theorem categoryBefore {c : Cause} (early : c.reportClass ∈ [.lexer, .parse, .validation]) :
    c.id.category ≠ .runtime := by
  intro running
  unfold Cause.reportClass at early
  split at early
  · simp at early
  · simp at early
  · simp [running] at early

theorem codeBefore {id : ErrorId} (early : id.category ≠ .runtime) :
    id.code ∉ [text "SKIFF-R001", text "SKIFF-R005", text "SKIFF-R006", text "SKIFF-R008"] := by
  revert early
  cases id <;> decide

theorem expectedBefore {f : Fault} (early : f.cause.reportClass ∈ [.lexer, .parse, .validation]) :
    f.Expected := .inl ⟨early, codeBefore (categoryBefore early)⟩

theorem running {f : Fault} (id : f.cause.id ∈
    [.undefinedVariable, .undefinedFunction, .typeMismatch, .indexOutOfRange]) : f.Running := by
  have code : f.cause.id.code ∈
      [text "SKIFF-R002", text "SKIFF-R003", text "SKIFF-R004", text "SKIFF-R007"] := by
    generalize f.cause.id = id at *
    revert id
    cases id <;> decide
  refine ⟨?_, code⟩
  obtain ⟨cause, location⟩ := f
  cases cause <;> first
    | rfl
    | simp [Cause.id] at id

theorem reportLine {f : Fault} {l : Location} (located : f.location = some l) :
    f.report.line = f.report.reportClass.label ++ (text " at line " ++ Text.ofNat l.line) ++
      text ": " ++ f.report.data.message ++ text " [" ++ f.report.id.code ++ text "]" := by
  have place : f.report.location = some l := located
  rw [Report.line, place]

end Fault

theorem Expr.soundPlaced {source : Text} {e : Expr} (sound : e.Sound (Location.LiesIn source)) :
    e.All (Expr.Placed (Location.FoundIn source)) False :=
  Expr.All.weaken (fun _ lies => ⟨_, lies.read, lies⟩) id sound

theorem Statement.soundPlaced {source : Text} {s : Statement}
    (sound : s.Sound (Location.LiesIn source)) : s.Placed (Location.FoundIn source) :=
  ⟨⟨_, sound.1.read, sound.1⟩, Expr.All.weaken (fun _ placed => placed) (fun _ => trivial)
    (Expr.soundPlaced sound.2)⟩

variable {ctx : Context σ}

theorem Context.Quiet.givesNothing (quiet : ctx.Quiet) (stop : Stop) : ¬ ctx.Gives stop := by
  rintro (⟨kind, listener, e, s, there, stops⟩ | ⟨name, f, call, s, there, _⟩)
  · rw [(quiet.listener kind listener there).goesOn] at stops
    cases stops
  · exact quiet.noHost name f there

theorem Fails.running (quiet : ctx.Quiet) (noSignal : ctx.hasSignal = false) {d : Expr}
    {t u : State σ} {stop : Stop} {node : Expr → Prop} (fit : ∃ region, Fit ctx region t)
    (full : d.All node False) (fails : Fails ctx d t stop u) :
    ∃ f, stop = .fault f ∧ f.Running ∧ f.location = d.span.location? := by
  have never (s : State σ) : ¬ ctx.Aborted s := by simp [Context.Aborted, noSignal]
  cases fails with
  | aborted aborted => exact absurd aborted (never u)
  | unbound => exact ⟨_, rfl, Fault.running (by simp [Cause.id]), rfl⟩
  | noFunction => exact ⟨_, rfl, Fault.running (by simp [Cause.id]), rfl⟩
  | operand => exact ⟨_, rfl, Fault.running (by simp [Cause.id]), rfl⟩
  | hole empty => exact absurd empty (full.2.noHole _)
  | subscript refused =>
    obtain ⟨id, place⟩ := Eval.elementAtRefuses _ refused
    exact ⟨_, rfl, Fault.running (by rcases id with id | id <;> simp [id]), place⟩
  | call valued leads reason =>
    cases reason with
    | given gives => exact absurd gives (quiet.givesNothing stop)
    | mistyped typed => exact ⟨_, rfl, Fault.running (by simp [typed.1]), typed.2⟩
    | aborted aborted => exact absurd aborted (never u)
    | timedOut host => exact absurd host (quiet.noHost _ _)
    | stalled host => exact absurd host (quiet.noHost _ _)
    | frozen target frozen =>
      -- The list is in the region, and the domain of the region is free until the run ends.
      obtain ⟨region, fits⟩ := fit
      obtain ⟨wider, _, fits', held⟩ := (Fitting.exprs quiet _ region t fits).onOk valued
      have member := Eval.firstIn held
      rw [target] at member
      rw [fits'.neverFrozen quiet leads member] at frozen
      cases frozen

theorem Run.executeRunning (quiet : ctx.Quiet) (noSignal : ctx.hasSignal = false) {source : Text}
    {script : Script} {start u : State σ} {stop : Stop} (fit : ∃ region, Fit ctx region start)
    (sound : ∀ s ∈ script.statements, s.Sound (Location.LiesIn source))
    (run : execute ctx script start = (.error stop, u)) :
    (∃ f, stop = .fault f ∧ f.Running ∧ Location.FoundIn source f.location) ∨
      ∃ kind name, stop = RunResult.refused kind name ∧
        Bindings.Blocks u.store.heap u.store.bindings kind name := by
  refine (executeBlamed run).imp_left fun steps => ?_
  cases steps with
  | given gives => exact absurd gives (quiet.givesNothing stop)
  | unread gives => exact absurd gives (quiet.givesNothing _)
  | aborted member aborted => simp [Context.Aborted, noSignal] at aborted
  | @node i d t _ _ begins fails =>
    have inside : d.All (Expr.Placed (Location.FoundIn source)) False := by
      obtain ⟨statement, s, ⟨st, w, rest, stage, _, remaining, _⟩, inside⟩ := begins
      have member : statement ∈ script.statements := List.mem_of_getElem? (stage.here remaining)
      exact inside.all (Expr.soundPlaced (sound statement member).2)
    obtain ⟨f, same, running, place⟩ := fails.running quiet noSignal (begins.fit quiet fit) inside
    exact ⟨f, same, running, place ▸ inside.root⟩

namespace Source

def Harmless (onLog : Option (Listener σ)) : Prop := ∀ listener ∈ onLog, listener.Quiet

theorem keepLoggedHarmless : Harmless (some keepLogged) := by
  intro listener same
  cases Option.mem_some.mp same
  exact ⟨fun _ _ => rfl, fun _ s => .refl s.heap, fun _ _ => rfl⟩

inductive Session : List Settings → Heap → Prop where
  | opened : Session [] .empty
  | configured {known h d settings h'} (before : Session known h)
      (reads : Settings.read d h = .ok (settings, h')) : Session (settings :: known) h'
  | evaluated {known h settings} {σ : Type} {onLog : Option (Listener σ)} (before : Session known h)
      (member : settings ∈ known) (harmless : Harmless onLog) (host : σ) (source : Text) :
      Session known (evaluateWith settings onLog host source h).2.store.heap

theorem contextQuiet (settings : Settings) (domain : Domain) {onLog : Option (Listener σ)}
    (harmless : Harmless onLog) : (settings.context domain onLog).Quiet where
  noHost name f there := by
    obtain ⟨b, same⟩ := Context.builtinFound there
    cases same
  listener kind listener there := by
    simp only [Settings.context] at there
    split at there
    · exact harmless listener there
    · cases there

theorem advancesIssued (quiet : ctx.Quiet) {s t : State σ} (advances : Advances ctx s t)
    (own : ctx.domain < s.store.heap.domains) (issued : s.store.heap.Issued) :
    t.store.heap.Issued := by
  induction advances with
  | refl => exact issued
  | @tail u v before effect ih =>
    have keeps := effect.keeps quiet.keepsHeap
    cases effect with
    | bound => exact ih
    | froze =>
      intro d frozen
      rcases List.mem_cons.mp (of_decide_eq_true frozen) with rfl | earlier
      · exact Nat.lt_of_lt_of_le own (Advances.keeps quiet.keepsHeap before).domains
      · exact ih d (decide_eq_true earlier)
    | evaluated effect =>
      cases effect with
      | noted => exact ih
      | heard e there => exact ((quiet.listener _ _ there).heap e u.store).issued ih
      | made o => exact ih
      | extended allowed =>
        intro d frozen
        obtain ⟨_, rfl⟩ := Heap.extendAllowed allowed
        have earlier : u.store.heap.isFrozen d = true := by
          simpa [State.withHeap, Heap.isFrozen] using frozen
        exact Nat.lt_of_lt_of_le (ih d earlier) keeps.domains
      | aborted => exact ih
      | called call there => exact absurd there (quiet.noHost _ _)

theorem evaluateAdvances (settings : Settings) (onLog : Option (Listener σ)) (host : σ)
    (source : Text) (h : Heap) :
    Advances (settings.context h.newDomain.1 onLog) (settingWith settings onLog host h).2
      (evaluateWith settings onLog host source h).2 := by
  unfold evaluateWith
  dsimp only
  split
  · exact .refl
  · split
    · exact .refl
    · exact (advancesCarried _).execute _ _

theorem evaluateKeeps (settings : Settings) {onLog : Option (Listener σ)} (harmless : Harmless onLog)
    (host : σ) (source : Text) {h : Heap} (issued : h.Issued) :
    h.Keeps (evaluateWith settings onLog host source h).2.store.heap ∧
      (evaluateWith settings onLog host source h).2.store.heap.Issued := by
  have quiet := contextQuiet settings h.newDomain.1 harmless
  have advances := evaluateAdvances settings onLog host source h
  have opened := Heap.Spares.newDomain h
  exact ⟨opened.keeps.trans (advances.keeps quiet.keepsHeap),
    advancesIssued quiet advances (Nat.lt_succ_self _) (opened.issued issued)⟩

theorem Session.sound {known : List Settings} {h : Heap} (session : Session known h) :
    h.Issued ∧ ∀ settings ∈ known, settings.Fixed h := by
  induction session with
  | opened => exact ⟨(fun d frozen => by cases frozen), (fun settings none => by cases none)⟩
  | configured before reads ih =>
    obtain ⟨spares, fixed⟩ := Settings.readFixed reads
    refine ⟨spares.issued ih.1, fun settings member => ?_⟩
    rcases List.mem_cons.mp member with rfl | earlier
    · exact fixed
    · exact (ih.2 settings earlier).keeps spares.keeps
  | evaluated before member harmless host source ih =>
    obtain ⟨keeps, issued⟩ := evaluateKeeps _ harmless host source ih.1
    exact ⟨issued, fun settings member => (ih.2 settings member).keeps keeps⟩

theorem settingFit {settings : Settings} {h : Heap} (issued : h.Issued) (fixed : settings.Fixed h)
    (onLog : Option (Listener σ)) (host : σ) :
    ∃ region, Fit (settings.context h.newDomain.1 onLog) region (settingWith settings onLog host h).2 := by
  obtain ⟨region, tuples, bound⟩ := fixed
  have opened := tuples.keeps (Heap.Spares.newDomain h).keeps
  exact ⟨region, opened.region h.newDomain.1, bound, issued.newFree, Nat.lt_succ_self _⟩

theorem evaluateExpected {settings : Settings} {h : Heap} (issued : h.Issued)
    (fixed : settings.Fixed h) {onLog : Option (Listener σ)} (harmless : Harmless onLog) {host : σ}
    {source : Text} {stop : Stop} {u : State σ}
    (run : evaluateWith settings onLog host source h = (.error stop, u)) :
    (∃ f, stop = .fault f ∧ f.Expected ∧ Location.FoundIn source f.location) ∨
      ∃ kind name, stop = RunResult.refused kind name ∧
        Bindings.Blocks u.store.heap u.store.bindings kind name := by
  have placed := Parser.scriptPlaced source
  unfold evaluateWith at run
  dsimp only at run
  split at run
  · rename_i f read
    rw [read] at placed
    cases run
    rcases placed with ⟨early, place⟩ | ⟨early, place⟩
    · exact .inl ⟨f, rfl, Fault.expectedBefore (by simp [early]), place⟩
    · exact .inl ⟨f, rfl, Fault.expectedBefore (by simp [early]), place⟩
  · rename_i script read
    rw [read] at placed
    split at run
    · rename_i f refused
      cases run
      obtain ⟨early, place⟩ := Run.refusedNames refused
      exact .inl ⟨f, rfl, Fault.expectedBefore (by simp [early]),
        place _ fun s member => Statement.soundPlaced (placed s member)⟩
    · refine (Run.executeRunning (contextQuiet settings h.newDomain.1 harmless) rfl
        (settingFit issued fixed onLog host) placed run).imp_left ?_
      rintro ⟨f, same, running, place⟩
      exact ⟨f, same, .inr running, place⟩

/- Under settings that were read before in the session, and with a listener that only looks on, the
evaluation of a source has a result or an expected fault at a place in the source; the line about it
names the line of that place. The one failure without a place is that of a result in which a variable
has none. -/
theorem failuresPlaced {known : List Settings} {h : Heap} (session : Session known h)
    {settings : Settings} (member : settings ∈ known) {onLog : Option (Listener σ)}
    (harmless : Harmless onLog) (host : σ) (source : Text) :
    (∃ result, (evaluateWith settings onLog host source h).1 = .ok result) ∨
    (∃ f l, (evaluateWith settings onLog host source h).1 = .error (.fault f) ∧ f.Expected ∧
      f.location = some l ∧ l.LiesIn source ∧
      f.report.line = f.report.reportClass.label ++ (text " at line " ++ Text.ofNat l.line) ++
        text ": " ++ f.report.data.message ++ text " [" ++ f.report.id.code ++ text "]") ∨
    ∃ kind name,
      (evaluateWith settings onLog host source h).1 = .error (RunResult.refused kind name) ∧
      Bindings.Blocks (evaluateWith settings onLog host source h).2.store.heap
        (evaluateWith settings onLog host source h).2.store.bindings kind name := by
  obtain ⟨issued, fixed⟩ := session.sound
  cases run : evaluateWith settings onLog host source h with
  | mk outcome last =>
    cases outcome with
    | ok result => exact .inl ⟨result, rfl⟩
    | error stop =>
      rcases evaluateExpected issued (fixed settings member) harmless run with
        ⟨f, rfl, expected, l, located, lies⟩ | ⟨kind, name, rfl, blocks⟩
      · exact .inr (.inl ⟨f, l, rfl, expected, located, lies, Fault.reportLine located⟩)
      · exact .inr (.inr ⟨kind, name, rfl, blocks⟩)

def oneVariable : Data :=
  .mapping [(text "variables", .mapping [(text "x", .sequence [.scalar .none])])]

def oneTuple : Settings × Heap :=
  (⟨none, none, some [(text "x", .object 0)]⟩, ⟨#[.tuple [.none]], 0, []⟩)

theorem variableCallStops :
    (evaluateWith oneTuple.1 (some keepLogged) () (text "x()") oneTuple.2).1 =
      .error (.fault ⟨.undefinedFunction (text "x"), some ⟨1, 1, 0⟩⟩) := by
  decide +kernel

theorem variableCalled :
    Session [oneTuple.1] oneTuple.2 ∧ Harmless (some keepLogged) ∧
    ∃ f, (evaluateWith oneTuple.1 (some keepLogged) () (text "x()") oneTuple.2).1 = .error (.fault f) ∧
      f.Expected ∧ f.location = some ⟨1, 1, 0⟩ ∧ Location.LiesIn (text "x()") ⟨1, 1, 0⟩ := by
  have session : Session [oneTuple.1] oneTuple.2 :=
    .configured (d := oneVariable) .opened rfl
  rcases failuresPlaced session List.mem_cons_self keepLoggedHarmless () (text "x()") with
    ⟨result, ended⟩ | ⟨f, l, failed, expected, place, lies, _⟩ | ⟨_, _, refused, _⟩
  · rw [variableCallStops] at ended
    cases ended
  · rw [variableCallStops] at failed
    cases failed
    cases place
    exact ⟨session, keepLoggedHarmless, _, variableCallStops, expected, rfl, lies⟩
  · rw [variableCallStops] at refused
    cases refused

def noSettings : Settings := ⟨none, none, none⟩

theorem lengthRefused :
    Session [noSettings] .empty ∧ Harmless (some keepLogged) ∧
    (evaluateWith noSettings (some keepLogged) () (text "__proto__ = (1,)\nlength = 5") .empty).1 =
      .error (.failure (text "TypeError")
        (text "Cannot set property length of #<SkiffTuple> which has only a getter")) :=
  ⟨.configured (d := .mapping []) .opened rfl, keepLoggedHarmless, by decide +kernel⟩

end Source

end SeqScript
