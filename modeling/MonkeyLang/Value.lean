import MonkeyLang.Fault
import MonkeyLang.Fnv
import MonkeyLang.Node
import MonkeyLang.OrderedMap

/-!
The values of the language. Arrays, hashes, functions and wrapped results carry the number of
their creation, which tells two of them apart whose contents are the same.
-/

namespace MonkeyLang

/-- The place of a frame in the store. An environment is known by the address of its own frame. -/
abbrev Address : Type := Nat

/-- Under what a hash keeps a value. A text is represented by its digest alone. -/
inductive HashKey
  | integer (value : Int)
  | boolean (value : Bool)
  | string (digest : UInt64)
  deriving DecidableEq, Repr, Inhabited

inductive Value
  | integer (value : Int)
  | boolean (value : Bool)
  | null
  | string (text : String)
  | array (id : Nat) (elements : List Value)
  /-- Entries in the order of first insertion, each with its key as a value and its value. -/
  | hash (id : Nat) (entries : List (HashKey × Value × Value))
  /-- A function with the environment in which it was made. -/
  | function (id : Nat) (params : List Node) (body : Node) (env : Address)
  | builtin (function : Builtin)
  /-- The result of a return statement, on its way to the function that it ends. -/
  | returned (id : Nat) (value : Value)
  | error (fault : Fault)
  deriving Inhabited

namespace Value

def type : Value → ValueType
  | integer _ => .integer
  | boolean _ => .boolean
  | null => .null
  | string _ => .string
  | array .. => .array
  | hash .. => .hash
  | function .. => .function
  | builtin _ => .builtin
  | returned .. => .returned
  | error _ => .error

def isError : Value → Bool
  | error _ => true
  | _ => false

/-- Whether a value ends the sequence of statements in which it comes up. -/
def endsSequence : Value → Bool
  | error _ | returned .. => true
  | _ => false

/-- Every value but null and false counts as true. -/
def isTruthy : Value → Bool
  | null | boolean false => false
  | _ => true

/-- The value with the outermost wrapper of a return statement taken off. -/
def unwrap : Value → Value
  | returned _ value => value
  | value => value

/-- The key that a value stands for in a hash; only integers, booleans and strings are keys. -/
def hashKey? : Value → Option HashKey
  | integer value => some (.integer value)
  | boolean value => some (.boolean value)
  | string text => some (.string (Fnv.digestText text))
  | _ => none

end Value

end MonkeyLang
