import MonkeyLang.Value

/-!
When two values are the same one, and when they are equal.
-/

namespace MonkeyLang.Value

/-- Whether two values are one and the same. There is one null, one of each boolean and one of each
builtin function; values with a number of creation are the same if that number is. Integers,
strings and faults are never asked for their identity. -/
def identical : Value → Value → Bool
  | boolean a, boolean b => a == b
  | null, null => true
  | array i _, array j _ => i == j
  | hash i _, hash j _ => i == j
  | function i .., function j .. => i == j
  | builtin f, builtin g => f == g
  | returned i _, returned j _ => i == j
  | _, _ => false

/-- Whether two values are equal from outside the language: data by content, a wrapped result by
what it wraps, a fault by its text, and all else by identity. -/
def equal : Value → Value → Bool
  | integer a, integer b => a == b
  | string a, string b => a == b
  | error f, error g => f.message == g.message
  | returned _ a, returned _ b => equal a b
  | a, b => identical a b

end MonkeyLang.Value
