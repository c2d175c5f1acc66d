import MonkeyLang.Node.Text
import MonkeyLang.Value

/-!
The text in which values are shown.
-/

namespace MonkeyLang

mutual

/-- The text of a value. A function is shown by its source, a wrapped result by its content. -/
def Value.inspect : Value → String
  | .integer value => toString value
  | .boolean value => if value then "true" else "false"
  | .null => "null"
  | .string text => text
  | .array _ elements => "[" ++ commaSeparated (inspectAll elements) ++ "]"
  | .hash _ entries => "\x7b" ++ commaSeparated (inspectEntries entries) ++ "\x7d"
  | .function _ params body _ =>
    "fn(" ++ commaSeparated (nodeTexts params) ++ ") " ++ body.enclosed body.text
  | .builtin _ => "builtin function"
  | .returned _ value => value.inspect
  | .error fault => "ERROR: " ++ fault.message

def inspectAll : List Value → List String
  | [] => []
  | value :: others => value.inspect :: inspectAll others

def inspectEntries : List (HashKey × Value × Value) → List String
  | [] => []
  | (_, key, value) :: others => (key.inspect ++ ": " ++ value.inspect) :: inspectEntries others

end

end MonkeyLang
