import MonkeyLang.Evaluation

/-!
Evaluation with its steps as parameters: the walk over the tree is the same in every kind of
computation, and what a step does there is given to it.
-/

namespace MonkeyLang

/-- What the steps of evaluation do in some kind of computation. -/
structure Effects (m : Type → Type) where
  lookup : Address → String → m Value
  bindTo : Address → Node → Value → m Unit
  /-- Makes a value out of its number of creation. -/
  create : (Nat → Value) → m Value
  builtin : Builtin → List Value → m Value
  enclose : Address → m Address
  record : LogRecord → m Unit
  abort {α : Type} : Abort → m α
  /-- Evaluates a node that stands inside another one or is the body of a function. -/
  inside {α : Type} : m α → m α
  /-- Takes note of the value of an expression. -/
  note : Value → m Value

/-- The steps as they are. -/
def Effects.plain (registry : Registry) : Effects Run where
  lookup := Evaluation.lookup registry
  bindTo := Evaluation.bindTo
  create make := do return make (← Run.freshId)
  builtin := Builtin.apply
  enclose := Run.enclose
  record := Run.record
  abort := throw
  inside := id
  note := pure

namespace Effects

variable {m : Type → Type} [Monad m] (fx : Effects m)

section Tree

variable (apply : Value → List Value → m Value) (env : Address)

mutual

def expr (node : Node) : m Value := do
  let value ← fx.inside (match node with
    | .int _ value => pure (.integer value)
    | .str _ value => pure (.string value)
    | .bool _ value => pure (.boolean value)
    | .ident _ name => fx.lookup env name
    | .prefixOp _ op operand => do
      let value ← expr operand
      if value.isError then return value
      return Value.applyPrefix op value
    | .infixOp _ left op right => do
      let a ← expr left
      if a.isError then return a
      let b ← expr right
      if b.isError then return b
      return Value.applyInfix op a b
    | .cond _ condition consequence alternative => do
      let test ← expr condition
      if test.isError then return test
      if test.isTruthy then return (← body consequence).getD .null
      else return (← alternativeBody alternative).getD .null
    | .fn _ params code => fx.create (.function · params code env)
    | .call _ callee args => do
      let function ← expr callee
      if function.isError then return function
      match ← exprs args with
      | .error fault => return fault
      | .ok values => apply function values
    | .array _ elements => do
      match ← exprs elements with
      | .error fault => return fault
      | .ok values => fx.create (.array · values)
    | .hash _ pairs => do
      match ← entries pairs [] with
      | .error fault => return fault
      | .ok table => fx.create (.hash · table)
    | .index _ collection key => do
      let a ← expr collection
      if a.isError then return a
      let b ← expr key
      if b.isError then return b
      return Value.index a b
    | node => fx.abort (.unhandled .expression node.formName))
  fx.note value

def statement (node : Node) : m (Option Value) :=
  fx.inside (match node with
    | .exprStmt _ e => do return some (← expr e)
    | .letStmt _ target e => do
      let value ← expr e
      if value.isError then return some value
      fx.bindTo env target value
      return none
    | .returnStmt _ e => do
      let value ← expr e
      if value.isError then return some value
      return some (← fx.create (.returned · value))
    | .block _ nodes => statements nodes none
    | node => fx.abort (.unhandled .statement node.formName))

def body (node : Node) : m (Option Value) :=
  fx.inside (match node with
    | .block _ nodes | .program nodes => statements nodes none
    | node => fx.abort (.unsuited node.formName))

def alternativeBody : Option Node → m (Option Value)
  | none => pure none
  | some node => body node

def statements : List Node → Option Value → m (Option Value)
  | [], last => pure last
  | node :: others, _ => do
    let value ← statement node
    if value.any Value.endsSequence then return value
    statements others value

def exprs : List Node → m (Except Value (List Value))
  | [] => pure (.ok [])
  | node :: others => do
    let value ← expr node
    if value.isError then return .error value
    match ← exprs others with
    | .error fault => return .error fault
    | .ok values => return .ok (value :: values)

def entries : List (Node × Node) → List (HashKey × Value × Value) →
    m (Except Value (List (HashKey × Value × Value)))
  | [], table => pure (.ok table)
  | (keyNode, valueNode) :: others, table => do
    let key ← expr keyNode
    if key.isError then return .error key
    match key.hashKey? with
    | none => return .error (.error (.unusableAsHashKey key.type))
    | some k => do
      let value ← expr valueNode
      if value.isError then return .error value
      entries others (OrderedMap.insert k (key, value) table)

end

def program (nodes : List Node) : m (Option Value) := do
  fx.record (.evaluatingProgram nodes.length)
  return (← statements fx apply env nodes none).map Value.unwrap

def root (node : Node) : m (Option Value) :=
  match node, node.role? with
  | .program nodes, _ => program fx apply env nodes
  | _, some .statement => statement fx apply env node
  | _, some .expression => do return some (← expr fx apply env node)
  | _, _ => fx.abort (.unhandled .plain node.formName)

end Tree

def bindAll (env : Address) : List Node → List Value → m Unit
  | target :: params, value :: args => do
    fx.bindTo env target value
    bindAll env params args
  | _, _ => pure ()

def applyWith (enter : Address → Node → m (Option Value)) (callee : Value) (args : List Value) :
    m Value :=
  match callee with
  | .function _ params code scope =>
    if params.length ≠ args.length then
      pure (.error (.wrongArgumentCount args.length params.length))
    else do
      fx.record (.applyingFunction params.length)
      let env ← fx.enclose scope
      bindAll fx env params args
      return ((← enter env code).getD .null).unwrap
  | .builtin function => do
    fx.record (.applyingBuiltin function args.length)
    fx.builtin function args
  | value => pure (.error (.notAFunction value.type))

def apply : Nat → Value → List Value → m Value
  | 0 => fx.applyWith fun _ _ ↦ fx.abort .depthLimit
  | depth + 1 => fx.applyWith fun env code ↦ fx.body (apply depth) env code

def evaluate (depth : Nat) (env : Address) (node : Node) : m (Option Value) :=
  fx.root (fx.apply depth) env node

end Effects

end MonkeyLang
