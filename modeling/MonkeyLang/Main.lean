import MonkeyLang.CommandLine

/-!
The program: reads files, the terminal and the name of the user, and writes what is reported.
-/

namespace MonkeyLang

def readSource (path : String) : IO (Option String) :=
  try some <$> IO.FS.readFile path catch _ => return none

/-- The first of several environment variables that is set. -/
def firstVariable : List String → IO (Option String)
  | [] => return none
  | key :: others => do
    match ← IO.getEnv key with
    | some value => if value.isEmpty then firstVariable others else return some value
    | none => firstVariable others

/-- Shows what a step has written and logged, and forgets it. -/
def showStep (verbose : Bool) (machine : Machine) : IO Machine := do
  if verbose then machine.log.forM fun entry ↦ IO.eprintln entry.line
  IO.print machine.output
  (← IO.getStdout).flush
  return { machine with output := "", log := #[] }

partial def dialogue (verbose : Bool) (env : Address) (machine : Machine) : IO UInt32 := do
  IO.print Repl.prompt
  (← IO.getStdout).flush
  let line ← (← IO.getStdin).getLine
  if line.isEmpty then
    IO.println ""
    return 0
  match Repl.answer env line machine with
  | .ok _ after => dialogue verbose env (← showStep verbose after)
  | .error abort after =>
    let _ ← showStep verbose after
    IO.eprintln abort.message
    return 1

end MonkeyLang

open MonkeyLang

def main (arguments : List String) : IO UInt32 := do
  match CommandLine.Options.ofArguments arguments with
  | .error argument =>
    IO.eprint (CommandLine.usageError argument)
    return 2
  | .ok options =>
    if options.paths.isEmpty then
      let user ← firstVariable ["LOGNAME", "USER", "LNAME", "USERNAME"]
      IO.print (CommandLine.greeting (user.getD "there"))
      match Run.newEnvironment .initial with
      | .ok env machine => dialogue options.verbose env machine
      | .error _ _ => return 1
    else
      let contents ← options.paths.mapM fun path ↦ return (path, ← readSource path)
      let read (path : String) : Option String := (contents.lookup path).join
      let report := CommandLine.runFiles read options.paths options.showTree
      IO.print report.out
      IO.eprint (report.errorText options.verbose)
      match report.status with
      | .ok status => return status.toUInt32
      | .error abort =>
        IO.eprintln abort.message
        return 1
