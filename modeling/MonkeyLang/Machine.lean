import MonkeyLang.Log
import MonkeyLang.Store
import MonkeyLang.Value.Inspect

/-!
The state of a running program and the steps on it: frames, the count of creations, the text
written so far and the log.
-/

namespace MonkeyLang

/-- The state of a running program. -/
structure Machine where
  store : Store
  /-- How many values with a number of creation there are. -/
  created : Nat
  output : String
  log : Array LogRecord

def Machine.initial : Machine := ⟨.empty, 0, "", #[]⟩

instance : Inhabited Machine := ⟨.initial⟩

/-- Why a run ends without an answer. -/
inductive Abort
  /-- The source has statements that cannot be read. -/
  | rejected (errors : List ParseError)
  /-- A node stands where nodes of its form have no meaning. -/
  | unhandled (role : Role) (formName : String)
  /-- A node has no statements, or is nothing that can be bound, where its place needs that. -/
  | unsuited (formName : String)
  /-- Calls are nested too deeply. -/
  | depthLimit

def Abort.message : Abort → String
  | rejected errors => ParseError.messages errors
  | unhandled role formName =>
    let place := match role with
      | .plain => "node"
      | .statement => "statement node"
      | .expression => "expr node"
    "internal error: unhandled " ++ place ++ " type: " ++ formName
  | unsuited formName => "internal error: unsuited node type: " ++ formName
  | depthLimit => "maximum recursion depth exceeded"

/-- A computation on the machine. What was done before an abort stays done. -/
abbrev Run : Type → Type := EStateM Abort Machine

namespace Run

def record (entry : LogRecord) : Run Unit :=
  modify fun machine ↦ { machine with log := machine.log.push entry }

def write (text : String) : Run Unit :=
  modify fun machine ↦ { machine with output := machine.output ++ text }

/-- A number of creation that no value has yet. -/
def freshId : Run Nat :=
  modifyGet fun machine ↦ (machine.created, { machine with created := machine.created + 1 })

def newArray (elements : List Value) : Run Value :=
  return .array (← freshId) elements

def newHash (entries : List (HashKey × Value × Value)) : Run Value :=
  return .hash (← freshId) entries

/-- A new hash to which pairs of values are added in turn. Pairs whose key is no key are left out. -/
def hashOfPairs (pairs : List (Value × Value)) : Run Value :=
  newHash (pairs.foldl
    (fun entries (key, value) ↦ match key.hashKey? with
      | some k => OrderedMap.insert k (key, value) entries
      | none => entries)
    [])

def newFunction (params : List Node) (body : Node) (env : Address) : Run Value :=
  return .function (← freshId) params body env

def newReturned (value : Value) : Run Value :=
  return .returned (← freshId) value

def lookup? (env : Address) (name : String) : Run (Option Value) :=
  return (← get).store.get? env name

def bindName (env : Address) (name : String) (value : Value) : Run Unit :=
  modify fun machine ↦ { machine with store := machine.store.bind env name value }

/-- Changes the store by a function that adds a frame, and gives the address of that frame. -/
def addFrame (add : Store → Store) : Run Address :=
  modifyGet fun machine ↦
    (machine.store.nextAddress, { machine with store := add machine.store })

def newEnvironment : Run Address := addFrame (·.addFrame [])

def enclose (outer : Address) : Run Address := addFrame (·.enclose outer)

end Run

def Machine.perform {α : Type} (machine : Machine) (run : Run α) :
    Except Abort α × String × Machine :=
  match run { machine with output := "" } with
  | .ok a after => (.ok a, after.output, after)
  | .error abort after => (.error abort, after.output, after)

end MonkeyLang
