import MonkeyLang.Builtin.Apply
import MonkeyLang.Value.Operator

/-!
Evaluation of trees. The functions follow the tree; only a call of a function leaves it, and
`apply` bounds how deeply such calls are nested. A fault that comes up in a part of a node is the
value of the node, and nothing else of the node is evaluated.
-/

namespace MonkeyLang

/-- The greatest number of calls inside one another. -/
def maxDepth : Nat := 2000

namespace Evaluation

/-- The value of a name: that of its binding, or the builtin function of that name. -/
def lookup (registry : Registry) (env : Address) (name : String) : Run Value := do
  match ← Run.lookup? env name with
  | some value => return value
  | none => match registry.find? name with
    | some function => return .builtin function
    | none => return .error (.identifierNotFound name)

/-- Binds a value to a node: to the name of an identifier or to the text of a string. A number or a
truth value may stand there too, but no name finds what is bound to it. -/
def bindTo (env : Address) (target : Node) (value : Value) : Run Unit :=
  match target with
  | .ident _ name | .str _ name => Run.bindName env name value
  | .int .. | .bool .. => pure ()
  | node => throw (.unsuited node.formName)

section Tree

variable (registry : Registry) (apply : Value → List Value → Run Value) (env : Address)

mutual

def expr : Node → Run Value
  | .int _ value => pure (.integer value)
  | .str _ value => pure (.string value)
  | .bool _ value => pure (.boolean value)
  | .ident _ name => lookup registry env name
  | .prefixOp _ op operand => do
    let value ← expr operand
    if value.isError then return value
    return Value.applyPrefix op value
  | .infixOp _ left op right => do
    let a ← expr left
    if a.isError then return a
    let b ← expr right
    if b.isError then return b
    return Value.applyInfix op a b
  | .cond _ condition consequence alternative => do
    let test ← expr condition
    if test.isError then return test
    if test.isTruthy then return (← body consequence).getD .null
    else return (← alternativeBody alternative).getD .null
  | .fn _ params code => Run.newFunction params code env
  | .call _ callee args => do
    let function ← expr callee
    if function.isError then return function
    match ← exprs args with
    | .error fault => return fault
    | .ok values => apply function values
  | .array _ elements => do
    match ← exprs elements with
    | .error fault => return fault
    | .ok values => Run.newArray values
  | .hash _ pairs => do
    match ← entries pairs [] with
    | .error fault => return fault
    | .ok table => Run.newHash table
  | .index _ collection key => do
    let a ← expr collection
    if a.isError then return a
    let b ← expr key
    if b.isError then return b
    return Value.index a b
  | node => throw (.unhandled .expression node.formName)

/-- Evaluates a node in the place of a statement. A let statement has no value. -/
def statement : Node → Run (Option Value)
  | .exprStmt _ e => some <$> expr e
  | .letStmt _ target e => do
    let value ← expr e
    if value.isError then return some value
    bindTo env target value
    return none
  | .returnStmt _ e => do
    let value ← expr e
    if value.isError then return some value
    some <$> Run.newReturned value
  | .block _ nodes => statements nodes none
  | node => throw (.unhandled .statement node.formName)

def body : Node → Run (Option Value)
  | .block _ nodes | .program nodes => statements nodes none
  | node => throw (.unsuited node.formName)

def alternativeBody : Option Node → Run (Option Value)
  | none => pure none
  | some node => body node

/-- Evaluates statements in turn, up to one with a fault or with a wrapped result. The value is
that of the last one evaluated, `last` being that of the one before. -/
def statements : List Node → Option Value → Run (Option Value)
  | [], last => pure last
  | node :: others, _ => do
    let value ← statement node
    if value.any Value.endsSequence then return value
    statements others value

def exprs : List Node → Run (Except Value (List Value))
  | [] => pure (.ok [])
  | node :: others => do
    let value ← expr node
    if value.isError then return .error value
    match ← exprs others with
    | .error fault => return .error fault
    | .ok values => return .ok (value :: values)

/-- The entries of a hash with those of the given pairs added, or the first fault among them.
A key that is none is a fault before its value is evaluated. -/
def entries : List (Node × Node) → List (HashKey × Value × Value) →
    Run (Except Value (List (HashKey × Value × Value)))
  | [], table => pure (.ok table)
  | (keyNode, valueNode) :: others, table => do
    let key ← expr keyNode
    if key.isError then return .error key
    match key.hashKey? with
    | none => return .error (.error (.unusableAsHashKey key.type))
    | some k => do
      let value ← expr valueNode
      if value.isError then return .error value
      entries others (OrderedMap.insert k (key, value) table)

end

/-- Evaluates a whole program. A wrapped result ends it and is unwrapped. -/
def program (nodes : List Node) : Run (Option Value) := do
  Run.record (.evaluatingProgram nodes.length)
  return (← statements registry apply env nodes none).map Value.unwrap

/-- Evaluates a node by the role of its form. -/
def root (node : Node) : Run (Option Value) :=
  match node, node.role? with
  | .program nodes, _ => program registry apply env nodes
  | _, some .statement => statement registry apply env node
  | _, some .expression => some <$> expr registry apply env node
  | _, _ => throw (.unhandled .plain node.formName)

end Tree

def bindAll (env : Address) : List Node → List Value → Run Unit
  | target :: params, value :: args => do
    bindTo env target value
    bindAll env params args
  | _, _ => pure ()

/-- Applies a value to arguments, `enter` being the way to evaluate the body of a function in its
new frame. That frame lies inside the one in which the function was made. -/
def applyWith (enter : Address → Node → Run (Option Value)) (callee : Value) (args : List Value) :
    Run Value :=
  match callee with
  | .function _ params code scope =>
    if params.length ≠ args.length then
      pure (.error (.wrongArgumentCount args.length params.length))
    else do
      Run.record (.applyingFunction params.length)
      let env ← Run.enclose scope
      bindAll env params args
      return ((← enter env code).getD .null).unwrap
  | .builtin function => do
    Run.record (.applyingBuiltin function args.length)
    function.apply args
  | value => pure (.error (.notAFunction value.type))

/-- Applies a value to arguments with at most `depth` calls of functions inside one another. -/
def apply (registry : Registry) : Nat → Value → List Value → Run Value
  | 0 => applyWith fun _ _ ↦ throw .depthLimit
  | depth + 1 => applyWith fun env code ↦ body registry (apply registry depth) env code

end Evaluation

def Node.evaluate (node : Node) (registry : Registry) (depth : Nat) (env : Address) :
    Run (Option Value) :=
  Evaluation.root registry (Evaluation.apply registry depth) env node

end MonkeyLang
