import MonkeyLang.Node

/-!
Reading tokens. A `Reader` takes tokens from the front of a list, which ends where the text ends.
It gives a result or the cause why there is none, the causes why statements inside it were
dropped, and the tokens at which reading goes on.
-/

namespace MonkeyLang

/-- Why a statement could not be read. -/
inductive ParseError
  | noExpression (got : Kind)
  | unexpected (want got : Kind)
  | integerTooLarge (literal : String)
  deriving DecidableEq, Repr, Inhabited

def ParseError.message : ParseError → String
  | noExpression got => "no prefix parse function for " ++ got.display ++ " found"
  | unexpected want got =>
    "expected next token to be " ++ want.display ++ ", got " ++ got.display ++ " instead"
  | integerTooLarge literal => "could not parse " ++ literal ++ " as integer"

def ParseError.messages (causes : List ParseError) : String :=
  "; ".intercalate (causes.map message)

/-- What comes of reading: a result or a cause, the causes of the statements dropped on the way in
their order, and the tokens behind what was read or, after a failure, behind what was given up. -/
structure Reading (α : Type) where
  outcome : Except ParseError α
  dropped : List ParseError
  rest : List Token

/-- A way to read an `α` from the front of a list of tokens. -/
def Reader (α : Type) : Type := List Token → Reading α

namespace Reader

variable {α β : Type}

def done (a : α) : Reader α := fun tokens ↦ ⟨.ok a, [], tokens⟩

/-- Gives up at the current token, which is left unread. -/
def fail (cause : ParseError) : Reader α := fun tokens ↦ ⟨.error cause, [], tokens⟩

def andThen (p : Reader α) (f : α → Reader β) : Reader β := fun tokens ↦
  match p tokens with
  | ⟨.ok a, dropped, rest⟩ =>
    let next := f a rest
    ⟨next.outcome, dropped ++ next.dropped, next.rest⟩
  | ⟨.error cause, dropped, rest⟩ => ⟨.error cause, dropped, rest⟩

instance : Monad Reader where
  pure := done
  bind := andThen

/-- The next token, which stays unread. Behind the last token this is the end token. -/
def peek : Reader Token := fun tokens ↦ ⟨.ok (tokens.head?.getD .eof), [], tokens⟩

def next : Reader Token := fun tokens ↦ ⟨.ok (tokens.head?.getD .eof), [], tokens.tail⟩

/-- Reads the next token if it is of the given kind, and tells whether it was. -/
def accept (kind : Kind) : Reader Bool := do
  if (← peek).kind = kind then
    let _ ← next
    return true
  else return false

def expect (kind : Kind) : Reader Token := do
  let token ← peek
  if token.kind = kind then next else fail (.unexpected kind token.kind)

/-- Reads with `p`; if that fails, its cause joins those of the dropped statements. -/
def attempt (p : Reader α) : Reader (Option α) := fun tokens ↦
  match p tokens with
  | ⟨.ok a, dropped, rest⟩ => ⟨.ok (some a), dropped, rest⟩
  | ⟨.error cause, dropped, rest⟩ => ⟨.ok none, dropped ++ [cause], rest⟩

/-- Reads items as long as a comma stands before them, at most `bound` of them. -/
def commaItems (item : Reader α) : Nat → Reader (List α)
  | 0 => pure []
  | bound + 1 => do
    if ← accept .comma then
      let first ← item
      let others ← commaItems item bound
      return first :: others
    else return []

def listUntil (close : Kind) (item : Reader α) (bound : Nat) : Reader (List α) := do
  if ← accept close then return []
  else
    let first ← item
    let others ← commaItems item bound
    let _ ← expect close
    return first :: others

/-- Reads statements up to a token of kind `close` or the end, at most `bound` of them, and keeps
those that can be read. -/
def statementsUntil (close : Kind) (statement : Reader Node) : Nat → Reader (List Node)
  | 0 => pure []
  | bound + 1 => do
    let kind := (← peek).kind
    if kind = .eof ∨ kind = close then return []
    else
      let first ← attempt statement
      let others ← statementsUntil close statement bound
      return first.toList ++ others

end Reader

end MonkeyLang
