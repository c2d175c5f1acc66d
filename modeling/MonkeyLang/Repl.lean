import MonkeyLang.Session

/-!
A dialogue: lines are read one after the other and evaluated in one environment.
-/

namespace MonkeyLang.Repl

def prompt : String := ">> "

/-- The face above a list of errors. -/
def face : String :=
  "            __,__\n" ++
  "   .--.  .-\"     \"-.  .--.\n" ++
  "  / .. \\/  .-. .-.  \\/ .. \\\n" ++
  " | |  '|  /   Y   \\  |'  | |\n" ++
  " | \\   \\  \\ 0 | 0 /  /   / |\n" ++
  "  \\ '- ,\\.-\"\"\"\"\"\"\"-./, -' /\n" ++
  "   ''-' /_   ^ ^   _\\ '-''\n" ++
  "       |  \\._   _./  |\n" ++
  "       \\   \\ '~' /   /\n" ++
  "        '._ '-=-' _.'\n" ++
  "           '-----'\n"

/-- What is written in place of an answer if statements cannot be read: the face, and the causes
each on a line of its own. -/
def complaint (errors : List ParseError) : String :=
  face ++ "Woops! We ran into some monkey business here!\n parser errors:\n" ++
    String.join (errors.map fun cause ↦ "\t" ++ cause.message ++ "\n")

/-- The lines of a text, each with the newline that ends it; the last one needs none. -/
def splitLines : List Char → List (List Char)
  | [] => []
  | c :: text =>
    if c == '\n' then [c] :: splitLines text
    else match splitLines text with
      | [] => [[c]]
      | line :: others => (c :: line) :: others

def linesOf (text : String) : List String := (splitLines text.toList).map String.ofList

/-- Answers a line: with its value, if it has one, or with a complaint. -/
def answer (env : Address) (line : String) : Run Unit := do
  let parsed := parse line
  Run.recordErrors parsed
  if parsed.errors.isEmpty then
    match ← parsed.program.evaluate .standard maxDepth env with
    | some value => Run.write (value.inspect ++ "\n")
    | none => pure ()
  else Run.write (complaint parsed.errors)

/-- Asks for lines and answers each. Where there are no more, the last prompt gets a newline. -/
def converse (env : Address) : List String → Run Unit
  | [] => Run.write (prompt ++ "\n")
  | line :: others => do
    Run.write prompt
    answer env line
    converse env others

def run (input : String) : Run Unit := do
  let env ← Run.newEnvironment
  converse env (linesOf input)

end MonkeyLang.Repl
