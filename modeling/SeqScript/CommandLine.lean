import SeqScript.Run.Source
import SeqScript.Yaml.Document

/-!
The command line: reading arguments, and what the program writes and answers for them, given the
file of settings. Nothing here reads or writes anything.
-/
namespace SeqScript.CommandLine

inductive Command where
  | help
  | version
  | check (source : Text)
  | evaluate (source : Text)
  deriving DecidableEq, Repr

inductive UsageFault where
  | unknownOption (argument : Text)
  | unexpectedArgument (argument : Text)
  deriving DecidableEq, Repr

def UsageFault.message : UsageFault → Text
  | .unknownOption a => text "Unknown option: " ++ a
  | .unexpectedArgument a => text "Unexpected argument: " ++ a

def optionsEnd : Text := text "--"

def helpOption : Text := text "--help"
def versionOption : Text := text "--version"
def checkOption : Text := text "--check"

def isOption (argument : Text) : Bool := Text.startsWith optionsEnd argument

def ofExpressions (check : Bool) : List Text → Except UsageFault Command
  | [] => .ok .help
  | [source] => .ok (if check then .check source else .evaluate source)
  | _ :: extra :: _ => .error (.unexpectedArgument extra)

def parseFrom (check : Bool) (expressions : List Text) : List Text → Except UsageFault Command
  | [] => ofExpressions check expressions
  | a :: rest =>
    if !isOption a then parseFrom check (expressions ++ [a]) rest
    else if a = optionsEnd then ofExpressions check (expressions ++ rest)
    else if a = helpOption then .ok .help
    else if a = versionOption then .ok .version
    else if a = checkOption then parseFrom true expressions rest
    else .error (.unknownOption a)

def parse (arguments : List Text) : Except UsageFault Command := parseFrom false [] arguments

structure Exit where
  code : Nat
  message : Option Text
  deriving DecidableEq, Repr

def codeOf? : Value → Option Nat
  | .scalar (.number x) =>
    if x.same .zero then some 0 else if x.same .one then some 1 else none
  | _ => none

def messageOf? : Value → Option Text
  | .scalar (.string t) => if t = [] then none else some t
  | _ => none

/- False is a failure. So is a pair that begins with one; a pair that begins with zero or one
may bring a message. Everything else is a success. -/
def exitOf (h : Heap) (v : Value) : Exit :=
  match h.tuple? v with
  | some r =>
    match h.items r with
    | [code, message] =>
      match codeOf? code with
      | some code => ⟨code, messageOf? message⟩
      | none => ⟨0, none⟩
    | _ => ⟨0, none⟩
  | none => ⟨if v = .bool false then 1 else 0, none⟩

inductive SettingsFile where
  | absent
  | unreadable
  | content (t : Text)
  deriving DecidableEq, Repr

def loadWith (reader : Text → Option Data) :
    SettingsFile → Except SettingsFault (Option Settings × Heap)
  | .absent => .ok (none, .empty)
  | .unreadable => .error .unreadable
  | .content t =>
    match reader t with
    | none => .error .malformed
    | some d => (Settings.read d .empty).map fun (s, h) => (some s, h)

def load : SettingsFile → Except SettingsFault (Option Settings × Heap) := loadWith Yaml.document

structure Outcome where
  code : Nat
  output : List Text
  errors : List Text
  deriving DecidableEq, Repr

def help : List Text := [
  "Skiff Expression Evaluator",
  "",
  "Usage:",
  "  skiff-eval <expression>          Evaluate a Skiff expression",
  "  skiff-eval --check <expression>  Report undefined names without running",
  "  skiff-eval --help                Show this help message",
  "  skiff-eval --version             Show version information",
  "  skiff-eval -- <expression>       Treat everything after -- as the expression",
  "",
  "Settings are read from .skiff.yaml in the working directory.",
  "",
  "Examples:",
  "  skiff-eval '[1, 2, 3]'",
  "  skiff-eval '(1,)'",
  "  skiff-eval 'xs = [1]",
  "append(xs, 2)",
  "xs'"].map text

def version : Text := text "skiff-eval 0.1.0"

def stopLine : Stop → Text
  | .fault f => f.report.line
  | stop => stop.message

def runCheck (settings : Settings) (h : Heap) (source : Text) : Outcome :=
  match Source.problems settings source h with
  | .error f => ⟨1, [], [f.report.line]⟩
  | .ok faults => ⟨if faults.isEmpty then 0 else 1, [], faults.map fun f => f.report.line⟩

def runEvaluate (settings : Settings) (h : Heap) (source : Text) : Outcome :=
  let (outcome, state) := Source.evaluate settings source h
  let logged := Source.loggedLines state.trace
  match outcome with
  | .error stop => ⟨1, logged, [stopLine stop]⟩
  | .ok result =>
    let exit := exitOf state.store.heap result.value
    ⟨exit.code, logged ++ [exit.message.getD (state.store.heap.output result.value)], []⟩

section
variable (reader : Text → Option Data)

def withSettings (file : SettingsFile) (f : Settings → Heap → Outcome) : Outcome :=
  match loadWith reader file with
  | .error fault => ⟨1, [], [fault.message]⟩
  | .ok (settings, h) => f (settings.getD .empty) h

def runCommand (file : SettingsFile) : Command → Outcome
  | .help => ⟨0, help, []⟩
  | .version => ⟨0, [version], []⟩
  | .check source => withSettings reader file fun s h => runCheck s h source
  | .evaluate source => withSettings reader file fun s h => runEvaluate s h source

def runWith (arguments : List Text) (file : SettingsFile) : Outcome :=
  match parse arguments with
  | .error fault => ⟨1, [], [fault.message]⟩
  | .ok command => runCommand reader file command

end

def run (arguments : List Text) (file : SettingsFile) : Outcome := runWith Yaml.document arguments file

def written (lines : List Text) : String :=
  String.join (lines.map fun l => l.toString ++ "\n")

end SeqScript.CommandLine
