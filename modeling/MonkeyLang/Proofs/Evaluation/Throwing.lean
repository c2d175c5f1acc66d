import MonkeyLang.Evaluation

/-!
A second way to evaluate trees, in which a fault is thrown where it comes up and only caught around
the whole program. No step looks at a value to find out whether it is a fault. To bind, pass on,
store or wrap a fault is a misuse, which ends the evaluation too.
-/

namespace MonkeyLang

/-- Why such an evaluation ends early. -/
inductive Exit
  | fault (fault : Fault)
  /-- The fault was about to be bound, passed on, stored or wrapped. -/
  | misuse (fault : Fault)

abbrev Thrower : Type → Type := ExceptT Exit Run

namespace Thrower

/-- Throws a fault; all other values are results. -/
def raise : Value → Thrower Value
  | .error fault => throw (.fault fault)
  | value => pure value

/-- A value that is used is no fault. -/
def use : Value → Thrower Unit
  | .error fault => throw (.misuse fault)
  | _ => pure ()

def useAll : List Value → Thrower Unit
  | [] => pure ()
  | value :: others => do
    use value
    useAll others

def abort {α : Type} (cause : Abort) : Thrower α := liftM (throw cause : Run α)

/-- What comes of a run that throws if a fault is caught and becomes the value. There is no outcome
for a misuse. -/
def caught : EStateM.Result Abort Machine (Except Exit (Option Value)) →
    Option (EStateM.Result Abort Machine (Option Value))
  | .ok (.ok value) after => some (.ok value after)
  | .ok (.error (.fault fault)) after => some (.ok (some (.error fault)) after)
  | .ok (.error (.misuse _)) _ => none
  | .error cause after => some (.error cause after)

end Thrower

namespace Throwing

open Thrower

def bindTo (env : Address) (target : Node) (value : Value) : Thrower Unit := do
  use value
  Evaluation.bindTo env target value

section Tree

variable (registry : Registry) (apply : Value → List Value → Thrower Value) (env : Address)

mutual

def expr : Node → Thrower Value
  | .int _ value => pure (.integer value)
  | .str _ value => pure (.string value)
  | .bool _ value => pure (.boolean value)
  | .ident _ name => do raise (← Evaluation.lookup registry env name)
  | .prefixOp _ op operand => do raise (Value.applyPrefix op (← expr operand))
  | .infixOp _ left op right => do
    let a ← expr left
    let b ← expr right
    raise (Value.applyInfix op a b)
  | .cond _ condition consequence alternative => do
    let test ← expr condition
    if test.isTruthy then return (← body consequence).getD .null
    else return (← alternativeBody alternative).getD .null
  | .fn _ params code => Run.newFunction params code env
  | .call _ callee args => do
    let function ← expr callee
    let values ← exprs args
    useAll values
    apply function values
  | .array _ elements => do
    let values ← exprs elements
    useAll values
    Run.newArray values
  | .hash _ pairs => do Run.newHash (← entries pairs [])
  | .index _ collection key => do
    let a ← expr collection
    let b ← expr key
    raise (Value.index a b)
  | node => abort (.unhandled .expression node.formName)

def statement : Node → Thrower (Option Value)
  | .exprStmt _ e => some <$> expr e
  | .letStmt _ target e => do
    let value ← expr e
    bindTo env target value
    return none
  | .returnStmt _ e => do
    let value ← expr e
    use value
    some <$> liftM (Run.newReturned value)
  | .block _ nodes => statements nodes none
  | node => abort (.unhandled .statement node.formName)

def body : Node → Thrower (Option Value)
  | .block _ nodes | .program nodes => statements nodes none
  | node => abort (.unsuited node.formName)

def alternativeBody : Option Node → Thrower (Option Value)
  | none => pure none
  | some node => body node

def statements : List Node → Option Value → Thrower (Option Value)
  | [], last => pure last
  | node :: others, _ => do
    match ← statement node with
    | some (.returned id value) => return some (.returned id value)
    | value => statements others value

def exprs : List Node → Thrower (List Value)
  | [] => pure []
  | node :: others => do
    let value ← expr node
    return value :: (← exprs others)

def entries : List (Node × Node) → List (HashKey × Value × Value) →
    Thrower (List (HashKey × Value × Value))
  | [], table => pure table
  | (keyNode, valueNode) :: others, table => do
    let key ← expr keyNode
    match key.hashKey? with
    | none => throw (.fault (.unusableAsHashKey key.type))
    | some k => do
      let value ← expr valueNode
      useAll [key, value]
      entries others (OrderedMap.insert k (key, value) table)

end

def program (nodes : List Node) : Thrower (Option Value) := do
  Run.record (.evaluatingProgram nodes.length)
  return (← statements registry apply env nodes none).map Value.unwrap

end Tree

def bindAll (env : Address) : List Node → List Value → Thrower Unit
  | target :: params, value :: args => do
    bindTo env target value
    bindAll env params args
  | _, _ => pure ()

def applyWith (enter : Address → Node → Thrower (Option Value)) (callee : Value)
    (args : List Value) : Thrower Value :=
  match callee with
  | .function _ params code scope =>
    if params.length ≠ args.length then
      throw (.fault (.wrongArgumentCount args.length params.length))
    else do
      Run.record (.applyingFunction params.length)
      let env ← Run.enclose scope
      bindAll env params args
      return ((← enter env code).getD .null).unwrap
  | .builtin function => do
    Run.record (.applyingBuiltin function args.length)
    raise (← function.apply args)
  | value => throw (.fault (.notAFunction value.type))

def apply (registry : Registry) : Nat → Value → List Value → Thrower Value
  | 0 => applyWith fun _ _ ↦ abort .depthLimit
  | depth + 1 => applyWith fun env code ↦ body registry (apply registry depth) env code

def evaluate (nodes : List Node) (registry : Registry) (depth : Nat) (env : Address) :
    Thrower (Option Value) :=
  program registry (apply registry depth) env nodes

end Throwing

end MonkeyLang
