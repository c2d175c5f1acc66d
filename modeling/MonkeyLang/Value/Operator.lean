import MonkeyLang.Value.Identity
import MonkeyLang.Word

/-!
What the operators of the language do to values. A combination of values that an operator is not
made for gives a fault.
-/

namespace MonkeyLang.Value

def integerInfix (op : String) (a b : Int) : Value :=
  match op with
  | "+" => integer (Word.wrap (a + b))
  | "-" => integer (Word.wrap (a - b))
  | "*" => integer (Word.wrap (a * b))
  | "/" => if b = 0 then error .divisionByZero else integer (Word.quotient a b)
  | "<" => boolean (a < b)
  | ">" => boolean (a > b)
  | "==" => boolean (a = b)
  | "!=" => boolean (a ≠ b)
  | _ => error (.unknownInfix .integer op .integer)

/-- An operator between two strings, which can only be joined. -/
def stringInfix (op : String) (a b : String) : Value :=
  if op = "+" then string (a ++ b) else error (.unknownInfix .string op .string)

/-- An operator between any other two values, which can only be compared for identity. -/
def otherInfix (op : String) (left right : Value) : Value :=
  if op = "==" then boolean (identical left right)
  else if op = "!=" then boolean (!identical left right)
  else if left.type = right.type then error (.unknownInfix left.type op right.type)
  else error (.typeMismatch left.type op right.type)

def applyInfix (op : String) : Value → Value → Value
  | integer a, integer b => integerInfix op a b
  | string a, string b => stringInfix op a b
  | left, right => otherInfix op left right

def applyPrefix (op : String) (operand : Value) : Value :=
  match op, operand with
  | "!", value => boolean (!value.isTruthy)
  | "-", integer n => integer (Word.wrap (-n))
  | op, value => error (.unknownPrefix op value.type)

/-- The element of a sequence at an index counted from zero, and null outside of it. -/
def element (elements : List Value) (index : Int) : Value :=
  if index < 0 then null else elements[index.toNat]?.getD null

/-- The value of a hash at a key, and null where the hash has none. -/
def entry (entries : List (HashKey × Value × Value)) (key : Value) : Value :=
  match key.hashKey? with
  | none => error (.unusableAsHashKey key.type)
  | some k => ((OrderedMap.find? k entries).map Prod.snd).getD null

def index : Value → Value → Value
  | array _ elements, integer i => element elements i
  | hash _ entries, key => entry entries key
  | collection, _ => error (.indexNotSupported collection.type)

end MonkeyLang.Value
