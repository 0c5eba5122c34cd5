/-
# The program

Reads the arguments, the script file or the lines of the standard input, and
the variables of the process; writes what `Console` answers.
-/
import RuleScript.Runner.Console
import RuleScript.Runner.Environment

namespace RuleScript.Program

/-- The text of a file, if it is there. -/
def readScript? (path : String) : IO (Option String) := do
  try return some (← IO.FS.readFile path)
  catch _ => return none

/-- Write a transcript. -/
def emit (t : Transcript) : IO Unit := do
  (← IO.getStderr).putStr t.errors
  let out ← IO.getStdout
  out.putStr t.output
  out.flush

/-- Answer the lines of the input one after the other. -/
partial def converse (r : Runner) : IO Unit := do
  emit (Console.write Console.blank Console.prompt)
  let line ← (← IO.getStdin).getLine
  if line = "" then emit (Console.write Console.blank Console.farewell)
  else
    let (t, next) := Console.respond r line
    emit t
    match next with
    | some r => converse r
    | none => pure ()

end RuleScript.Program

open RuleScript Program in
/-- The program. -/
def main (args : List String) : IO UInt32 := do
  let names := [Settings.depthVariable, Settings.loopVariable, Settings.traceVariable]
  let pairs ← names.mapM fun n => do return (n, ← IO.getEnv n)
  match Settings.ofVariables (fun n => (pairs.lookup n).join) none with
  | .error message =>
    (← IO.getStderr).putStrLn message
    return 1
  | .ok settings =>
    match Console.scriptPath? args with
    | some path =>
      let t := Console.runFile settings path (← readScript? path)
      emit t
      return t.status.toUInt32
    | none =>
      emit (Console.write Console.blank Console.banner)
      converse (Console.newSession settings)
      return 0
