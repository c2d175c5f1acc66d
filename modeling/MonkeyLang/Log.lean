import MonkeyLang.Builtin
import MonkeyLang.Reader

/-!
The log of a run: statements that could not be read, programs begun and calls made.
-/

namespace MonkeyLang

inductive LogRecord
  | parseError (cause : ParseError)
  | evaluatingProgram (statements : Nat)
  | applyingFunction (params : Nat)
  | applyingBuiltin (function : Builtin) (args : Nat)

def LogRecord.line : LogRecord → String
  | parseError cause => "DEBUG monkey.parse.parser: parse error: " ++ cause.message
  | evaluatingProgram n =>
    "DEBUG monkey.runtime.interpreter: evaluating program of " ++ toString n ++ " statement(s)"
  | applyingFunction n =>
    "DEBUG monkey.runtime.interpreter: applying function of " ++ toString n ++ " parameter(s)"
  | applyingBuiltin function n =>
    "DEBUG monkey.runtime.interpreter: applying builtin " ++ function.name ++ " to " ++ toString n ++
      " argument(s)"

end MonkeyLang
