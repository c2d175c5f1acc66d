/-!
The types of the values of the language.
-/

namespace MonkeyLang

inductive ValueType
  | integer | boolean | null | string | array | hash | function | builtin | returned | error
  deriving DecidableEq, Repr, Inhabited

def ValueType.name : ValueType → String
  | integer => "INTEGER"
  | boolean => "BOOLEAN"
  | null => "NULL"
  | string => "STRING"
  | array => "ARRAY"
  | hash => "HASH"
  | function => "FUNCTION"
  | builtin => "BUILTIN"
  | returned => "RETURN_VALUE"
  | error => "ERROR"

end MonkeyLang
