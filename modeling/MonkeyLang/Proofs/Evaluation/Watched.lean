import MonkeyLang.Evaluation

/-!
Evaluation under watch: whatever is done with a wrapped result is looked at, and evaluation ends
where that is forbidden. Return statements wrap their values as in evaluation proper, or they leave
the function call or the program around them at once.
-/

namespace MonkeyLang

/-- What becomes of a value. -/
inductive Use
  /-- A let statement or a parameter is bound to it. -/
  | bound
  | passed
  /-- It becomes an element of an array, or a key or a value of a hash. -/
  | stored
  /-- It is an operand, a condition, a collection, a key in brackets, or what is called. -/
  | operated
  /-- A return statement wraps it. -/
  | nested
  /-- A call of a function gives it, or a whole program. -/
  | yielded
  /-- A builtin function gives it. -/
  | fetched
  /-- It is the value of a statement that is a call. -/
  | ended
  deriving DecidableEq

/-- What return statements do, and what may be done with wrapped results. -/
inductive Regime
  /-- Return statements wrap. Wrapped results may be bound, passed on, stored and operated on, and
  builtin functions may give them. -/
  | loose
  /-- Return statements wrap. Nothing may be done with wrapped results. -/
  | strict
  /-- Return statements leave the function call or the program around them with their values.
  Nothing may be done with wrapped results. -/
  | leaving
  deriving DecidableEq

/-- Why an evaluation under watch ends early. -/
inductive Departure
  | leave (value : Value)
  /-- A wrapped result was about to be put to a forbidden use. -/
  | misuse (use : Use)

abbrev Watcher : Type → Type := ExceptT Departure Run

namespace Watcher

def abort {α : Type} (cause : Abort) : Watcher α := liftM (throw cause : Run α)

/-- What comes of an evaluation under watch that has come to its end. -/
def settled : EStateM.Result Abort Machine (Except Departure (Option Value)) →
    Option (EStateM.Result Abort Machine (Option Value))
  | .ok (.ok value) after => some (.ok value after)
  | .ok (.error _) _ => none
  | .error cause after => some (.error cause after)

end Watcher

namespace Regime

def forbids : Regime → Use → Bool
  | loose, use => use = .nested || use = .yielded || use = .ended
  | strict, _ | leaving, _ => true

/-- Ends the evaluation if the value is a wrapped result whose use is forbidden. -/
def check (regime : Regime) (use : Use) : Value → Watcher Unit
  | .returned .. => if regime.forbids use then throw (.misuse use) else pure ()
  | _ => pure ()

/-- What a return statement does with its value. To leave takes a number of creation, as to wrap
does, so that the values made later have the same numbers. -/
def leave (regime : Regime) (value : Value) : Watcher (Option Value) :=
  match regime with
  | leaving => do
    let _ ← Run.freshId
    throw (.leave value)
  | _ => some <$> liftM (Run.newReturned value)

/-- Evaluates what a return statement can bring to an end. -/
def arrive (regime : Regime) (inner : Watcher (Option Value)) : Watcher (Option Value) :=
  match regime with
  | leaving => tryCatch inner fun departure ↦ match departure with
    | .leave value => pure (some value)
    | .misuse use => throw (.misuse use)
  | _ => Option.map Value.unwrap <$> inner

/-- Whether a value ends the sequence of statements in which it comes up. -/
def stops : Regime → Value → Bool
  | leaving => Value.isError
  | _ => Value.endsSequence

end Regime

def Node.isCall : Node → Bool
  | .call .. => true
  | _ => false

namespace Watched

variable (regime : Regime)

section Tree

variable (registry : Registry) (apply : Value → List Value → Watcher Value) (env : Address)

mutual

def expr : Node → Watcher Value
  | .int _ value => pure (.integer value)
  | .str _ value => pure (.string value)
  | .bool _ value => pure (.boolean value)
  | .ident _ name => Evaluation.lookup registry env name
  | .prefixOp _ op operand => do
    let value ← expr operand
    regime.check .operated value
    if value.isError then return value
    return Value.applyPrefix op value
  | .infixOp _ left op right => do
    let a ← expr left
    regime.check .operated a
    if a.isError then return a
    let b ← expr right
    regime.check .operated b
    if b.isError then return b
    return Value.applyInfix op a b
  | .cond _ condition consequence alternative => do
    let test ← expr condition
    regime.check .operated test
    if test.isError then return test
    if test.isTruthy then return (← body consequence).getD .null
    else return (← alternativeBody alternative).getD .null
  | .fn _ params code => Run.newFunction params code env
  | .call _ callee args => do
    let function ← expr callee
    regime.check .operated function
    if function.isError then return function
    match ← exprs .passed args with
    | .error fault => return fault
    | .ok values => apply function values
  | .array _ elements => do
    match ← exprs .stored elements with
    | .error fault => return fault
    | .ok values => Run.newArray values
  | .hash _ pairs => do
    match ← entries pairs [] with
    | .error fault => return fault
    | .ok table => Run.newHash table
  | .index _ collection key => do
    let a ← expr collection
    regime.check .operated a
    if a.isError then return a
    let b ← expr key
    regime.check .operated b
    if b.isError then return b
    return Value.index a b
  | node => Watcher.abort (.unhandled .expression node.formName)

def statement : Node → Watcher (Option Value)
  | .exprStmt _ e => do
    let value ← expr e
    if e.isCall then regime.check .ended value
    return some value
  | .letStmt _ target e => do
    let value ← expr e
    regime.check .bound value
    if value.isError then return some value
    Evaluation.bindTo env target value
    return none
  | .returnStmt _ e => do
    let value ← expr e
    regime.check .nested value
    if value.isError then return some value
    regime.leave value
  | .block _ nodes => statements nodes none
  | node => Watcher.abort (.unhandled .statement node.formName)

def body : Node → Watcher (Option Value)
  | .block _ nodes | .program nodes => statements nodes none
  | node => Watcher.abort (.unsuited node.formName)

def alternativeBody : Option Node → Watcher (Option Value)
  | none => pure none
  | some node => body node

def statements : List Node → Option Value → Watcher (Option Value)
  | [], last => pure last
  | node :: others, _ => do
    let value ← statement node
    if value.any regime.stops then return value
    statements others value

/-- Evaluates nodes whose values are put to the same use. -/
def exprs (use : Use) : List Node → Watcher (Except Value (List Value))
  | [] => pure (.ok [])
  | node :: others => do
    let value ← expr node
    regime.check use value
    if value.isError then return .error value
    match ← exprs use others with
    | .error fault => return .error fault
    | .ok values => return .ok (value :: values)

def entries : List (Node × Node) → List (HashKey × Value × Value) →
    Watcher (Except Value (List (HashKey × Value × Value)))
  | [], table => pure (.ok table)
  | (keyNode, valueNode) :: others, table => do
    let key ← expr keyNode
    regime.check .stored key
    if key.isError then return .error key
    match key.hashKey? with
    | none => return .error (.error (.unusableAsHashKey key.type))
    | some k => do
      let value ← expr valueNode
      regime.check .stored value
      if value.isError then return .error value
      entries others (OrderedMap.insert k (key, value) table)

end

def program (nodes : List Node) : Watcher (Option Value) := do
  Run.record (.evaluatingProgram nodes.length)
  let value ← regime.arrive (statements regime registry apply env nodes none)
  match value with
  | some v => do
    regime.check .yielded v
    return some v
  | none => return none

end Tree

def bindAll (env : Address) : List Node → List Value → Watcher Unit
  | target :: params, value :: args => do
    regime.check .bound value
    Evaluation.bindTo env target value
    bindAll env params args
  | _, _ => pure ()

def applyWith (enter : Address → Node → Watcher (Option Value)) (callee : Value)
    (args : List Value) : Watcher Value :=
  match callee with
  | .function _ params code scope =>
    if params.length ≠ args.length then
      pure (.error (.wrongArgumentCount args.length params.length))
    else do
      Run.record (.applyingFunction params.length)
      let env ← Run.enclose scope
      bindAll regime env params args
      let value := (← regime.arrive (enter env code)).getD .null
      regime.check .yielded value
      return value
  | .builtin function => do
    Run.record (.applyingBuiltin function args.length)
    let value ← function.apply args
    regime.check .fetched value
    return value
  | value => pure (.error (.notAFunction value.type))

def apply (registry : Registry) : Nat → Value → List Value → Watcher Value
  | 0 => applyWith regime fun _ _ ↦ Watcher.abort .depthLimit
  | depth + 1 => applyWith regime fun env code ↦
      body regime registry (apply registry depth) env code

def evaluate (nodes : List Node) (registry : Registry) (depth : Nat) (env : Address) :
    Watcher (Option Value) :=
  program regime registry (apply regime registry depth) env nodes

end Watched

end MonkeyLang
