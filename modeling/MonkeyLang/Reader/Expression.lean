import MonkeyLang.Reader
import MonkeyLang.Reader.Precedence

/-!
Reading expressions by precedence. Each form is read by a function that is given the way to read
the expressions inside it; `Reader.expr` ties them together. Numbers named `bound` are at least
the number of tokens left, so that no loop stops because of them.
-/

namespace MonkeyLang.Reader

/-- The largest integer literal, which is `2 ^ 63 - 1`. -/
def maxInteger : Nat := 0x7fffffffffffffff

def decimal (literal : String) : Nat := Nat.ofDigitChars 10 literal.toList 0

def integer (token : Token) : Reader Node :=
  if decimal token.literal ≤ maxInteger then pure (.int token (decimal token.literal))
  else fail (.integerTooLarge token.literal)

def binder : Reader Node := do
  let token ← expect .ident
  return .ident token token.literal

/-- Reads one parameter. A token that is no name is read all the same. -/
def parameter : Reader Node := do
  let token ← next
  if token.kind = .ident then return .ident token token.literal
  else fail (.unexpected .ident token.kind)

section Forms

variable (expr : Precedence → Reader Node) (bound : Nat)

/-- Reads a let statement behind its first token. -/
def letStmt (token : Token) : Reader Node := do
  let name ← binder
  let _ ← expect .assign
  let value ← expr .lowest
  let _ ← accept .semicolon
  return .letStmt token name value

def returnStmt (token : Token) : Reader Node := do
  let value ← expr .lowest
  let _ ← accept .semicolon
  return .returnStmt token value

/-- Reads an expression statement, whose first token is that of the expression. -/
def exprStmt (token : Token) : Reader Node := do
  let value ← expr .lowest
  let _ ← accept .semicolon
  return .exprStmt token value

def statement : Reader Node := do
  let token ← peek
  match token.kind with
  | .kwLet =>
    let token ← next
    letStmt expr token
  | .kwReturn =>
    let token ← next
    returnStmt expr token
  | _ => exprStmt expr token

/-- Reads a block from its opening brace, which must follow, to the closing one or to the end. -/
def block : Reader Node := do
  let brace ← expect .lbrace
  let statements ← statementsUntil .rbrace (statement expr) bound
  let _ ← accept .rbrace
  return .block brace statements

def grouped : Reader Node := do
  let inner ← expr .lowest
  let _ ← expect .rparen
  return inner

def conditional (token : Token) : Reader Node := do
  let _ ← expect .lparen
  let condition ← expr .lowest
  let _ ← expect .rparen
  let consequence ← block expr bound
  if ← accept .kwElse then
    let alternative ← block expr bound
    return .cond token condition consequence (some alternative)
  else return .cond token condition consequence none

def function (token : Token) : Reader Node := do
  let _ ← expect .lparen
  let params ← listUntil .rparen parameter bound
  let body ← block expr bound
  return .fn token params body

def hashPair : Reader (Node × Node) := do
  let key ← expr .lowest
  let _ ← expect .colon
  let value ← expr .lowest
  return (key, value)

/-- Reads an expression that does not go on from one on its left. -/
def operand : Reader Node := do
  let token ← next
  match token.kind with
  | .ident => return .ident token token.literal
  | .int => integer token
  | .string => return .str token token.literal
  | .kwTrue => return .bool token true
  | .kwFalse => return .bool token false
  | .bang | .minus => return .prefixOp token token.literal (← expr .unary)
  | .lparen => grouped expr
  | .kwIf => conditional expr bound token
  | .kwFn => function expr bound token
  | .lbracket => return .array token (← listUntil .rbracket (expr .lowest) bound)
  | .lbrace => return .hash token (← listUntil .rbrace (hashPair expr) bound)
  | kind => fail (.noExpression kind)

/-- Reads what goes on from the expression `left` behind its first token: the arguments of a call,
a key, or the right operand of an operator, which takes all that binds more strongly. -/
def continuation (left : Node) (token : Token) : Reader Node := do
  match token.kind with
  | .lparen => return .call token left (← listUntil .rparen (expr .lowest) bound)
  | .lbracket =>
    let key ← expr .lowest
    let _ ← expect .rbracket
    return .index token left key
  | kind => return .infixOp token left token.literal (← expr (.ofKind kind))

/-- Goes on from the expression `left` as long as the next token binds more strongly than
`precedence`, at most as often as the last number says. -/
def continuations (precedence : Precedence) : Nat → Node → Reader Node
  | 0, left => pure left
  | count + 1, left => do
    let token ← peek
    if precedence.level < (Precedence.ofKind token.kind).level then
      let token ← next
      let longer ← continuation expr bound left token
      continuations precedence count longer
    else return left

end Forms

/-- Reads an expression up to the first token that binds no more strongly than the given
precedence. The number bounds the tokens left: where it is zero there is no token, so that the
end is met in place of an expression. -/
def expr : Nat → Precedence → Reader Node
  | 0 => fun _ ↦ do
    let token ← next
    fail (.noExpression token.kind)
  | bound + 1 => fun precedence ↦ do
    let left ← operand (expr bound) bound
    continuations (expr bound) bound precedence bound left

end MonkeyLang.Reader
