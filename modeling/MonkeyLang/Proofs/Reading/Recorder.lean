import MonkeyLang.Proofs.Reading
import MonkeyLang.Reader.Program

/-!
The parser with a record of its calls. It has one list of errors, to which every error is added
where it comes up, and a failure says no more than that there is no result. Its loops are not
bounded but run out of fuel, which they must never do if the parser is to end.
-/

namespace MonkeyLang

inductive Loop
  | statements | operators | items
  deriving DecidableEq

/-- What a call of the parser is to read. One turn of a loop counts as a call of its own. -/
inductive Activity
  | statement | letStmt | returnStmt | exprStmt | block
  | expression | prefixed | grouped | conditional | function | continuation
  | list | parameter | hashPair
  | turn (loop : Loop)
  deriving DecidableEq

/-- Whether no more is asked of such calls than that they go forward. -/
def Activity.isPlain : Activity → Bool
  | statement | expression | turn _ => false
  | _ => true

/-- A call of the parser: the tokens that lie ahead when it begins and when it ends, whether it
gives a result, the errors that are added in it and all calls inside it. -/
structure Call where
  activity : Activity
  start : List Token
  stop : List Token
  succeeded : Bool
  errors : List ParseError
  inner : List Call

/-- Why the parser does not go on. -/
inductive Interruption
  /-- There is no result. -/
  | failed
  /-- A loop or the nesting has gone on for longer than it may. -/
  | exhausted

/-- Where the parser stands: the tokens ahead, the errors so far and the calls that have ended. -/
structure Cursor where
  tokens : List Token
  errors : List ParseError
  calls : List Call

abbrev Recorder : Type → Type := EStateM Interruption Cursor

namespace Recorder

variable {α : Type}

def peek : Recorder Token := do return (← get).tokens.head?.getD .eof

def next : Recorder Token := do
  let token ← peek
  modify fun cursor ↦ { cursor with tokens := cursor.tokens.tail }
  return token

def accept (kind : Kind) : Recorder Bool := do
  if (← peek).kind = kind then
    let _ ← next
    return true
  else return false

/-- Adds an error, and there is no result. -/
def fail (cause : ParseError) : Recorder α := do
  modify fun cursor ↦ { cursor with errors := cursor.errors ++ [cause] }
  throw .failed

def expect (kind : Kind) : Recorder Token := do
  let token ← peek
  if token.kind = kind then next else fail (.unexpected kind token.kind)

/-- Goes on with nothing where there is no result. -/
def attempt (p : Recorder α) : Recorder (Option α) := fun cursor ↦
  match p.run cursor with
  | .ok a after => .ok (some a) after
  | .error .failed after => .ok none after
  | .error .exhausted after => .error .exhausted after

/-- Keeps a record of the call. -/
def call (activity : Activity) (p : Recorder α) : Recorder α := do
  let before ← get
  let result ← attempt p
  modify fun after ↦ { after with
    calls := after.calls ++ [{
      activity
      start := before.tokens
      stop := after.tokens
      succeeded := result.isSome
      errors := after.errors.drop before.errors.length
      inner := after.calls.drop before.calls.length }] }
  match result with
  | some a => return a
  | none => throw .failed

def commaItems (item : Recorder α) : Nat → Recorder (List α)
  | 0 => throw .exhausted
  | fuel + 1 => do
    if (← peek).kind = .comma then
      let first ← call (.turn .items) (do
        let _ ← next
        item)
      let others ← commaItems item fuel
      return first :: others
    else return []

def listUntil (close : Kind) (item : Recorder α) (fuel : Nat) : Recorder (List α) :=
  call .list do
    if ← accept close then return []
    else
      let first ← item
      let others ← commaItems item fuel
      let _ ← expect close
      return first :: others

/-- Attempts to read statements up to a token of kind `close` or the end. -/
def statementsUntil (close : Kind) (statement : Recorder Node) : Nat → Recorder (List Node)
  | 0 => throw .exhausted
  | fuel + 1 => do
    let kind := (← peek).kind
    if kind = .eof ∨ kind = close then return []
    else
      let first ← call (.turn .statements) (attempt (call .statement statement))
      let others ← statementsUntil close statement fuel
      return first.toList ++ others

def integer (token : Token) : Recorder Node :=
  if Reader.decimal token.literal ≤ Reader.maxInteger then
    return .int token (Reader.decimal token.literal)
  else fail (.integerTooLarge token.literal)

def binder : Recorder Node := do
  let token ← expect .ident
  return .ident token token.literal

def parameter : Recorder Node :=
  call .parameter do
    let token ← next
    if token.kind = .ident then return .ident token token.literal
    else fail (.unexpected .ident token.kind)

section Forms

variable (expr : Precedence → Recorder Node) (fuel : Nat)

def letStmt (token : Token) : Recorder Node :=
  call .letStmt do
    let name ← binder
    let _ ← expect .assign
    let value ← expr .lowest
    let _ ← accept .semicolon
    return .letStmt token name value

def returnStmt (token : Token) : Recorder Node :=
  call .returnStmt do
    let value ← expr .lowest
    let _ ← accept .semicolon
    return .returnStmt token value

def exprStmt (token : Token) : Recorder Node :=
  call .exprStmt do
    let value ← expr .lowest
    let _ ← accept .semicolon
    return .exprStmt token value

def statement : Recorder Node := do
  let token ← peek
  match token.kind with
  | .kwLet =>
    let token ← next
    letStmt expr token
  | .kwReturn =>
    let token ← next
    returnStmt expr token
  | _ => exprStmt expr token

def block : Recorder Node :=
  call .block do
    let brace ← expect .lbrace
    let statements ← statementsUntil .rbrace (statement expr) fuel
    let _ ← accept .rbrace
    return .block brace statements

def grouped : Recorder Node :=
  call .grouped do
    let inner ← expr .lowest
    let _ ← expect .rparen
    return inner

def conditional (token : Token) : Recorder Node :=
  call .conditional do
    let _ ← expect .lparen
    let condition ← expr .lowest
    let _ ← expect .rparen
    let consequence ← block expr fuel
    if ← accept .kwElse then
      let alternative ← block expr fuel
      return .cond token condition consequence (some alternative)
    else return .cond token condition consequence none

def function (token : Token) : Recorder Node :=
  call .function do
    let _ ← expect .lparen
    let params ← listUntil .rparen parameter fuel
    let body ← block expr fuel
    return .fn token params body

def hashPair : Recorder (Node × Node) :=
  call .hashPair do
    let key ← expr .lowest
    let _ ← expect .colon
    let value ← expr .lowest
    return (key, value)

def prefixed (token : Token) : Recorder Node :=
  call .prefixed do return .prefixOp token token.literal (← expr .unary)

def operand : Recorder Node := do
  let token ← next
  match token.kind with
  | .ident => return .ident token token.literal
  | .int => integer token
  | .string => return .str token token.literal
  | .kwTrue => return .bool token true
  | .kwFalse => return .bool token false
  | .bang | .minus => prefixed expr token
  | .lparen => grouped expr
  | .kwIf => conditional expr fuel token
  | .kwFn => function expr fuel token
  | .lbracket => return .array token (← listUntil .rbracket (expr .lowest) fuel)
  | .lbrace => return .hash token (← listUntil .rbrace (hashPair expr) fuel)
  | kind => fail (.noExpression kind)

def continuation (left : Node) (token : Token) : Recorder Node :=
  call .continuation do
    match token.kind with
    | .lparen => return .call token left (← listUntil .rparen (expr .lowest) fuel)
    | .lbracket =>
      let key ← expr .lowest
      let _ ← expect .rbracket
      return .index token left key
    | kind => return .infixOp token left token.literal (← expr (.ofKind kind))

def continuations (precedence : Precedence) : Nat → Node → Recorder Node
  | 0, _ => throw .exhausted
  | count + 1, left => do
    let token ← peek
    if precedence.level < (Precedence.ofKind token.kind).level then
      let longer ← call (.turn .operators) (do
        let token ← next
        continuation expr fuel left token)
      continuations precedence count longer
    else return left

end Forms

def expr : Nat → Precedence → Recorder Node
  | 0 => fun _ ↦ throw .exhausted
  | fuel + 1 => fun precedence ↦
    call .expression do
      let left ← operand (expr fuel) fuel
      continuations (expr fuel) fuel precedence fuel left

/-- Reads a program to the end. -/
def program (fuel : Nat) : Recorder (List Node) :=
  statementsUntil .eof (statement (expr fuel)) fuel

end Recorder

end MonkeyLang
