import MonkeyLang.CommandLine.Options
import MonkeyLang.Repl

/-!
Running files, and dialogues over a given input. What a run leaves behind is a report.
-/

namespace MonkeyLang.CommandLine

/-- What is left of a finished run: its exit status, or why it was broken off, and what it wrote to
the output, to the log and to the error output. -/
structure Report where
  status : Except Abort Nat
  out : String
  log : List LogRecord
  err : String

namespace Report

/-- The text of the error output, in which a verbose run shows its log. -/
def errorText (report : Report) (verbose : Bool) : String :=
  (if verbose then String.join (report.log.map fun entry ↦ entry.line ++ "\n") else "") ++ report.err

/-- The report on a computation that has run, `finish` giving the exit status and the text of the
error output for its result. -/
def ofResult {α : Type} (finish : α → Nat × String) : EStateM.Result Abort Machine α → Report
  | .ok a machine => ⟨.ok (finish a).1, machine.output, machine.log.toList, (finish a).2⟩
  | .error abort machine => ⟨.error abort, machine.output, machine.log.toList, ""⟩

end Report

/-- A text with every kind of line end turned into a newline. -/
def unifyLineEnds : List Char → List Char
  | '\r' :: '\n' :: text => '\n' :: unifyLineEnds text
  | '\r' :: text => '\n' :: unifyLineEnds text
  | c :: text => c :: unifyLineEnds text
  | [] => []

/-- Evaluates a program in a new environment, its canonical text written before if asked for. -/
def evaluateProgram (program : Node) (showTree : Bool) : Run (Option Value) := do
  if showTree then Run.write (program.text ++ "\n\n")
  let env ← Run.newEnvironment
  program.evaluate .standard maxDepth env

def finish : Option Value → Nat × String
  | some (.error fault) => (1, (Value.error fault).inspect ++ "\n")
  | _ => (0, "")

def runSource (source : String) (showTree : Bool) : Report :=
  let parsed := parse source
  if parsed.errors.isEmpty then
    .ofResult finish (evaluateProgram parsed.program showTree .initial)
  else ⟨.ok 1, "", parsed.errors.map .parseError, Repl.complaint parsed.errors⟩

/-- The text of several files, one directly behind the other, or the first path that is no file. -/
def sourceOf (read : String → Option String) : List String → Except String String
  | [] => .ok ""
  | path :: others => match read path with
    | none => .error path
    | some text => (String.ofList (unifyLineEnds text.toList) ++ ·) <$> sourceOf read others

/-- Runs several files as one program, `read` giving the content of each file. Nothing is run if
one of the paths is no file. -/
def runFiles (read : String → Option String) (paths : List String) (showTree : Bool) : Report :=
  match sourceOf read paths with
  | .error path => ⟨.ok 1, "", [], "the path specified does not exist: " ++ path ++ "\n"⟩
  | .ok source => runSource source showTree

def greeting (user : String) : String :=
  "Hello " ++ user ++ "! This is the Monkey programming language!\n" ++
    "Feel free to type in commands\n"

def runDialogue (user input : String) : Report :=
  let dialogue : Run Unit := do
    Run.write (greeting user)
    Repl.run input
  .ofResult (fun _ ↦ (0, "")) (dialogue .initial)

/-- Runs a command line: the files it names or, if there are none, a dialogue. -/
def run (options : Options) (read : String → Option String) (user input : String) : Report :=
  if options.paths.isEmpty then runDialogue user input
  else runFiles read options.paths options.showTree

end MonkeyLang.CommandLine
