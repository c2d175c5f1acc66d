import MonkeyLang.Builtin
import MonkeyLang.Value.Type

/-!
What can go wrong while a program of the language runs. A fault is a value of the language like
any other; its text names the types of the values involved.
-/

namespace MonkeyLang

/-- Why an evaluation has no proper value. -/
inductive Fault
  | typeMismatch (left : ValueType) (op : String) (right : ValueType)
  | unknownInfix (left : ValueType) (op : String) (right : ValueType)
  | unknownPrefix (op : String) (operand : ValueType)
  | divisionByZero
  | identifierNotFound (name : String)
  | notAFunction (type : ValueType)
  | wrongArgumentCount (got want : Nat)
  | noLength (type : ValueType)
  | noArray (builtin : Builtin) (type : ValueType)
  | unusableAsHashKey (type : ValueType)
  | indexNotSupported (type : ValueType)
  /-- A fault that no evaluation makes, with a text of its own. -/
  | custom (message : String)
  deriving DecidableEq, Repr, Inhabited

def Fault.message : Fault → String
  | typeMismatch left op right => "type mismatch: " ++ left.name ++ " " ++ op ++ " " ++ right.name
  | unknownInfix left op right => "unknown operator: " ++ left.name ++ " " ++ op ++ " " ++ right.name
  | unknownPrefix op operand => "unknown operator: " ++ op ++ operand.name
  | divisionByZero => "division by zero: INTEGER / INTEGER"
  | identifierNotFound name => "identifier not found: " ++ name
  | notAFunction type => "not a function: " ++ type.name
  | wrongArgumentCount got want =>
    "wrong number of arguments. got=" ++ toString got ++ ", want=" ++ toString want
  | noLength type => "argument to `len` not supported, got " ++ type.name
  | noArray builtin type =>
    "argument to `" ++ builtin.name ++ "` must be ARRAY, got " ++ type.name
  | unusableAsHashKey type => "unusable as hash key: " ++ type.name
  | indexNotSupported type => "index operator not supported: " ++ type.name
  | custom message => message

end MonkeyLang
