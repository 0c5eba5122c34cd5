/-
# The command line

With a script file as first argument the script is run; otherwise lines are
read and run one after the other, on one program scope. What a script prints
and its value go to the output, failures to the error output. A file that
fails, or is not there, ends the program with status one.

Everything is computed as a transcript, so that it can be reasoned about;
reading and writing happen elsewhere.

Key definitions: `Transcript`, `Console.runFile`, `Console.respond`,
`Console.interact`, `Console.main`.
-/
import RuleScript.Runner.Session

namespace RuleScript

/-- What a program wrote, and its exit status. -/
structure Transcript where
  output : String
  errors : String
  status : Nat
deriving Repr, DecidableEq

/-- One transcript after another; the status is that of the later one. -/
def Transcript.append (a b : Transcript) : Transcript :=
  ⟨a.output ++ b.output, a.errors ++ b.errors, b.status⟩

namespace Console

/-- A transcript with nothing in it. -/
def blank : Transcript := ⟨"", "", 0⟩

/-- Add to the output. -/
def write (t : Transcript) (s : String) : Transcript := { t with output := t.output ++ s }

/-- Add a line to the error output. -/
def complain (t : Transcript) (s : String) : Transcript :=
  { t with errors := t.errors ++ s ++ "\n" }

/-- What a run printed, one line each. -/
def writeEffects (t : Transcript) (effects : Array Effect) : Transcript :=
  effects.foldl (fun t e => match e with | .printed s => write t (s ++ "\n") | .failed _ => t) t

/-- Run a script and show what it did; also whether it succeeded. -/
def runScript (t : Transcript) (r : Runner) (text : String) : Transcript × Runner × Bool :=
  let r := { r with machine := { r.machine with log := #[] } }
  let (outcome, r) := r.handle text
  let t := r.machine.log.foldl complain t
  let t := writeEffects t r.machine.effects
  match outcome with
  | .failure _ message token => (complain t (formatReport message token), r, false)
  | .success v =>
    match v with
    | .null | .absent => (t, r, true)
    | v => (write t (v.text r.machine.heap ++ "\n"), r, true)

/-- The last part of a path. -/
def baseName (path : String) : String :=
  let parts := (path.toList.splitOn '/').filter fun p => p ≠ [] ∧ p ≠ ['.']
  String.ofList (parts.getLast?.getD [])

/-- Run a script file, given its text if it is there. -/
def runFile (settings : Settings) (path : String) : Option String → Transcript
  | none => { complain blank ("Error: file not found: " ++ path) with status := 1 }
  | some text =>
    let r := Runner.create settings (baseName path) false #[] none
    let (t, _, ok) := runScript blank r (String.ofList (Text.unifyLineEnds text.toList))
    { t with status := if ok then 0 else 1 }

/-- The lines of an input; what stands behind the last line end is a line of
its own unless it is empty. -/
def inputLines (cs : List Char) : List String :=
  let lines := (cs.splitOn '\n').map String.ofList
  if lines.getLast? = some "" then lines.dropLast else lines

/-- Answer one line of an interactive session: what is written, and the
runner for the next line unless the session is over. -/
def respond (r : Runner) (line : String) : Transcript × Option Runner :=
  let line := Text.trim line
  if line = "" then (blank, some r)
  else if line = "exit" then (blank, none)
  else
    let (t, r, _) := runScript blank r line
    (t, some r)

/-- What stands before each line of an interactive session. -/
def prompt : String := ">> "

/-- What ends a session whose input ends. -/
def farewell : String := "\nExiting.\n"

/-- Answer lines until one asks to stop or there are no more. -/
def interact (t : Transcript) (r : Runner) : List String → Transcript
  | [] => write t (prompt ++ farewell)
  | line :: rest =>
    let (answer, next) := respond r line
    let t := (write t prompt).append answer
    match next with
    | none => t
    | some r => interact t r rest

/-- The banner of an interactive session. -/
def banner : String := "Quill REPL v0.1\nType 'exit' or press Ctrl+D to quit.\n"

/-- The runner of an interactive session. -/
def newSession (settings : Settings) : Runner := Runner.create settings "repl" true #[] none

/-- The script file that the arguments name, if they name one. -/
def scriptPath? (args : List String) : Option String :=
  args.head?.filter fun first => first.toList.head? ≠ some '-'

/-- The command line as a transcript, given the files and the input. -/
def main (settings : Settings) (args : List String) (file : String → Option String)
    (input : String) : Transcript :=
  match scriptPath? args with
  | some path => runFile settings path (file path)
  | none =>
    interact (write blank banner) (newSession settings)
      (inputLines (Text.unifyLineEnds input.toList))

end Console

end RuleScript
