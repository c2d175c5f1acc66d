import MonkeyLang.Machine

/-!
What the builtin functions do. An argument that a function is not made for gives a fault.
-/

namespace MonkeyLang.Builtin

/-- The number of characters of a string or of elements of an array. -/
def length : Value → Value
  | .string text => .integer text.length
  | .array _ elements => .integer elements.length
  | value => .error (.noLength value.type)

def writeLines : List Value → Run Unit
  | [] => pure ()
  | value :: others => do
    Run.write (value.inspect ++ "\n")
    writeLines others

/-- All elements but the first; an empty array has no rest. -/
def tail : List Value → Run Value
  | [] => pure .null
  | _ :: others => Run.newArray others

/-- Applies a builtin function. A wrong number of arguments counts before their types. -/
def apply : Builtin → List Value → Run Value
  | len, [value] => pure (length value)
  | first, [.array _ elements] => pure (elements.head?.getD .null)
  | last, [.array _ elements] => pure (elements.getLast?.getD .null)
  | rest, [.array _ elements] => tail elements
  | push, [.array _ elements, value] => Run.newArray (elements ++ [value])
  | puts, args => do
    writeLines args
    return .null
  | push, [value, _] => pure (.error (.noArray push value.type))
  | push, args => pure (.error (.wrongArgumentCount args.length 2))
  | function, [value] => pure (.error (.noArray function value.type))
  | _, args => pure (.error (.wrongArgumentCount args.length 1))

end MonkeyLang.Builtin
