import MonkeyLang.Session

/-!
Evaluation under guard: every step that has no result for some operands fails where it is taken with
such operands, and whatever an expression gives must be there and is shown to a guard before it is
used. Where no step fails, this is evaluation proper.
-/

namespace MonkeyLang

/-- What a step of evaluation must not do. -/
inductive Misstep
  /-- To divide by zero. -/
  | zeroDivisor
  /-- To take an element from where there is none. -/
  | noElement
  /-- To use a value that is missing. -/
  | noValue
  /-- To take the length of something that is too long for the guard. -/
  | overlong
  /-- To use a value that the guard does not admit. -/
  | notAdmitted
  deriving DecidableEq

abbrev Guarded : Type → Type := ExceptT Misstep Run

/-- What is allowed on the way: which lengths may be taken, and which values may be used in which
state of the machine. -/
structure Guard where
  measures : Nat → Bool
  admits : Machine → Value → Bool

/-- How long a string or an array is. -/
def Value.extent? : Value → Option Nat
  | .string text => some text.length
  | .array _ elements => some elements.length
  | _ => none

/-- Whether a builtin function may be applied, with regard to the lengths that it takes. -/
def Guard.permits (guard : Guard) : Builtin → List Value → Bool
  | .len, [value] => value.extent?.all guard.measures
  | _, _ => true

namespace Guarded

def abort {α : Type} (cause : Abort) : Guarded α := liftM (throw cause : Run α)

/-- The value, which must be there and be admitted. -/
def use (guard : Guard) : Option Value → Guarded Value
  | none => throw .noValue
  | some value => do
    let machine ← (get : Run Machine)
    if guard.admits machine value then return value else throw .notAdmitted

section Operators

/-- The quotient by a number, which must not be zero. -/
def divide (a b : Int) : Guarded Int :=
  if b = 0 then throw .zeroDivisor else pure (Word.quotient a b)

def applyInfix (op : String) : Value → Value → Guarded Value
  | .integer a, .integer b =>
    if op = "/" then
      if b = 0 then pure (.error .divisionByZero) else return .integer (← divide a b)
    else pure (Value.integerInfix op a b)
  | left, right => pure (Value.applyInfix op left right)

/-- The element at an index counted from zero, which must lie inside of the sequence. -/
def elementAt (elements : List Value) (index : Int) : Guarded Value :=
  if index < 0 then throw .noElement
  else match elements[index.toNat]? with
    | some element => pure element
    | none => throw .noElement

def index : Value → Value → Guarded Value
  | .array _ elements, .integer i =>
    if i < 0 ∨ elements.length ≤ i then pure .null else elementAt elements i
  | collection, key => pure (Value.index collection key)

/-- A builtin function, whose step is that of evaluation proper unless it takes an element. -/
def performBuiltin : Builtin → List Value → Guarded Value
  | .first, [.array _ elements] =>
    if elements.isEmpty then pure .null else elementAt elements 0
  | .last, [.array _ elements] =>
    if elements.isEmpty then pure .null else elementAt elements (elements.length - 1)
  | function, args => liftM (function.apply args)

def applyBuiltin (guard : Guard) (function : Builtin) (args : List Value) : Guarded Value :=
  if guard.permits function args then performBuiltin function args else throw .overlong

end Operators

section Tree

variable (guard : Guard) (registry : Registry)
  (apply : Value → List Value → Guarded (Option Value)) (env : Address)

mutual

def expr : Node → Guarded (Option Value)
  | .int _ value => pure (some (.integer value))
  | .str _ value => pure (some (.string value))
  | .bool _ value => pure (some (.boolean value))
  | .ident _ name => some <$> liftM (Evaluation.lookup registry env name)
  | .prefixOp _ op operand => do
    let value ← use guard (← expr operand)
    if value.isError then return some value
    return some (Value.applyPrefix op value)
  | .infixOp _ left op right => do
    let a ← use guard (← expr left)
    if a.isError then return some a
    let b ← use guard (← expr right)
    if b.isError then return some b
    some <$> applyInfix op a b
  | .cond _ condition consequence alternative => do
    let test ← use guard (← expr condition)
    if test.isError then return some test
    if test.isTruthy then return some ((← body consequence).getD .null)
    else return some ((← alternativeBody alternative).getD .null)
  | .fn _ params code => some <$> liftM (Run.newFunction params code env)
  | .call _ callee args => do
    let function ← use guard (← expr callee)
    if function.isError then return some function
    match ← exprs args with
    | .error fault => return some fault
    | .ok values => apply function values
  | .array _ elements => do
    match ← exprs elements with
    | .error fault => return some fault
    | .ok values => some <$> liftM (Run.newArray values)
  | .hash _ pairs => do
    match ← entries pairs [] with
    | .error fault => return some fault
    | .ok table => some <$> liftM (Run.newHash table)
  | .index _ collection key => do
    let a ← use guard (← expr collection)
    if a.isError then return some a
    let b ← use guard (← expr key)
    if b.isError then return some b
    some <$> index a b
  | node => abort (.unhandled .expression node.formName)

def statement : Node → Guarded (Option Value)
  | .exprStmt _ e => do return some (← use guard (← expr e))
  | .letStmt _ target e => do
    let value ← use guard (← expr e)
    if value.isError then return some value
    Evaluation.bindTo env target value
    return none
  | .returnStmt _ e => do
    let value ← use guard (← expr e)
    if value.isError then return some value
    some <$> liftM (Run.newReturned value)
  | .block _ nodes => statements nodes none
  | node => abort (.unhandled .statement node.formName)

def body : Node → Guarded (Option Value)
  | .block _ nodes | .program nodes => statements nodes none
  | node => abort (.unsuited node.formName)

def alternativeBody : Option Node → Guarded (Option Value)
  | none => pure none
  | some node => body node

def statements : List Node → Option Value → Guarded (Option Value)
  | [], last => pure last
  | node :: others, _ => do
    let value ← statement node
    if value.any Value.endsSequence then return value
    statements others value

def exprs : List Node → Guarded (Except Value (List Value))
  | [] => pure (.ok [])
  | node :: others => do
    let value ← use guard (← expr node)
    if value.isError then return .error value
    match ← exprs others with
    | .error fault => return .error fault
    | .ok values => return .ok (value :: values)

def entries : List (Node × Node) → List (HashKey × Value × Value) →
    Guarded (Except Value (List (HashKey × Value × Value)))
  | [], table => pure (.ok table)
  | (keyNode, valueNode) :: others, table => do
    let key ← use guard (← expr keyNode)
    if key.isError then return .error key
    match key.hashKey? with
    | none => return .error (.error (.unusableAsHashKey key.type))
    | some k => do
      let value ← use guard (← expr valueNode)
      if value.isError then return .error value
      entries others (OrderedMap.insert k (key, value) table)

end

def program (nodes : List Node) : Guarded (Option Value) := do
  Run.record (.evaluatingProgram nodes.length)
  return (← statements guard registry apply env nodes none).map Value.unwrap

end Tree

def applyWith (guard : Guard) (enter : Address → Node → Guarded (Option Value)) (callee : Value)
    (args : List Value) : Guarded (Option Value) :=
  match callee with
  | .function _ params code scope =>
    if params.length ≠ args.length then
      pure (some (.error (.wrongArgumentCount args.length params.length)))
    else do
      Run.record (.applyingFunction params.length)
      let env ← Run.enclose scope
      Evaluation.bindAll env params args
      return some ((← enter env code).getD .null).unwrap
  | .builtin function => do
    Run.record (.applyingBuiltin function args.length)
    some <$> applyBuiltin guard function args
  | value => pure (some (.error (.notAFunction value.type)))

def apply (guard : Guard) (registry : Registry) : Nat → Value → List Value → Guarded (Option Value)
  | 0 => applyWith guard fun _ _ ↦ abort .depthLimit
  | depth + 1 => applyWith guard fun env code ↦
      body guard registry (apply guard registry depth) env code

def evaluateText (guard : Guard) (registry : Registry) (env : Address) (text : String) :
    Guarded (Option Value) := do
  let parsed := parse text
  Run.recordErrors parsed
  match parsed.toExcept with
  | .error errors => abort (.rejected errors)
  | .ok statements => program guard registry (apply guard registry maxDepth) env statements

end Guarded

end MonkeyLang
