import MonkeyLang.Evaluation
import MonkeyLang.Reader.Program

/-!
Evaluating source text in an environment. What earlier texts have bound stays on the machine, also
after a text that is rejected or a run that is broken off.
-/

namespace MonkeyLang

def Run.recordErrors (parsed : Parsed) : Run Unit :=
  parsed.errors.forM fun cause ↦ Run.record (.parseError cause)

/-- Evaluates a text. If any of its statements cannot be read, the text is rejected as a whole. -/
def evaluateText (registry : Registry) (env : Address) (text : String) : Run (Option Value) := do
  let parsed := parse text
  Run.recordErrors parsed
  match parsed.toExcept with
  | .error errors => throw (.rejected errors)
  | .ok statements => (Node.program statements).evaluate registry maxDepth env

end MonkeyLang
