import SeqScript.CommandLine

/-!
The program: it finds the file of settings in the working directory, and writes what the command
line answers.
-/
open SeqScript

def settingsFile : IO CommandLine.SettingsFile := do
  try
    return .content (text (← IO.FS.readFile ".skiff.yaml"))
  catch
    | .noFileOrDirectory _ _ _ => return .absent
    | _ => return .unreadable

def main (arguments : List String) : IO UInt32 := do
  let outcome := CommandLine.run (arguments.map text) (← settingsFile)
  (← IO.getStdout).putStr (CommandLine.written outcome.output)
  (← IO.getStderr).putStr (CommandLine.written outcome.errors)
  return outcome.code.toUInt32
