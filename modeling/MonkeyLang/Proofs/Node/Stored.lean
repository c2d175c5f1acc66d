import MonkeyLang.Proofs.Grammar
import MonkeyLang.Proofs.Node.Nested

/-!
The tokens that trees store: of which kind they are, what the nodes take from them, and the order in
which they stand in a text.
-/

namespace MonkeyLang

/-- The token of the node is of the kind that goes with the node's form, and the node holds what the
token says. The names that are bound are identifiers. That of an expression statement is the first
one of an expression, which may be of any kind. -/
def Node.Documented : Node → Prop
  | .letStmt token target _ => token.kind = .kwLet ∧ ∃ name, target = .ident name name.literal
  | .returnStmt token _ => token.kind = .kwReturn
  | .exprStmt .. => True
  | .block brace _ => brace.kind = .lbrace
  | .ident token name => token.kind = .ident ∧ name = token.literal
  | .int token value => token.kind = .int ∧ value = Reader.decimal token.literal ∧
      0 ≤ value ∧ value ≤ Reader.maxInteger
  | .str token value => token.kind = .string ∧ value = token.literal
  | .bool token value => token.kind = if value then .kwTrue else .kwFalse
  | .prefixOp token op _ => (token.kind = .bang ∨ token.kind = .minus) ∧ op = token.literal
  | .infixOp token _ op _ => (∃ tier : Tier, token.kind ∈ tier.operators) ∧ op = token.literal
  | .cond token .. => token.kind = .kwIf
  | .fn token params _ =>
    token.kind = .kwFn ∧ ∀ param ∈ params, ∃ name, param = .ident name name.literal
  | .call token .. => token.kind = .lparen
  | .array token _ => token.kind = .lbracket
  | .hash token _ => token.kind = .lbrace
  | .index token .. => token.kind = .lbracket
  | .program _ | .bare .. | .foreign _ => False

/-- The first token of a statement, where the node is one that is read as a statement. -/
def Node.opening? : Node → Option Token
  | .letStmt token .. | .returnStmt token _ | .exprStmt token _ => some token
  | _ => none

mutual

/-- The tokens that a tree stores, in the order in which they stand in a text. Those of expression
statements are left out, since they may be stored once more in the expressions. -/
def Node.tokens : Node → List Token
  | .program nodes => nodesTokens nodes
  | .letStmt token target value => token :: (target.tokens ++ value.tokens)
  | .returnStmt token value => token :: value.tokens
  | .exprStmt _ expr => expr.tokens
  | .block brace nodes => brace :: nodesTokens nodes
  | .ident token _ | .int token _ | .str token _ | .bool token _ | .bare _ token => [token]
  | .prefixOp token _ operand => token :: operand.tokens
  | .infixOp token left _ right => left.tokens ++ token :: right.tokens
  | .cond token condition consequence alternative =>
    token :: (condition.tokens ++ consequence.tokens ++ alternativeTokens alternative)
  | .fn token params body => token :: (nodesTokens params ++ body.tokens)
  | .call token callee args => callee.tokens ++ token :: nodesTokens args
  | .array token elements => token :: nodesTokens elements
  | .hash token pairs => token :: pairsTokens pairs
  | .index token collection key => collection.tokens ++ token :: key.tokens
  | .foreign _ => []

def alternativeTokens : Option Node → List Token
  | none => []
  | some node => node.tokens

def nodesTokens : List Node → List Token
  | [] => []
  | node :: others => node.tokens ++ nodesTokens others

def pairsTokens : List (Node × Node) → List Token
  | [] => []
  | (key, value) :: others => key.tokens ++ value.tokens ++ pairsTokens others

end

theorem nodesTokens_eq (nodes : List Node) : nodesTokens nodes = nodes.flatMap Node.tokens := by
  induction nodes with
  | nil => rfl
  | cons node others ih => rw [nodesTokens, ih, List.flatMap_cons]

theorem pairsTokens_eq (pairs : List (Node × Node)) :
    pairsTokens pairs = pairs.flatMap fun pair ↦ pair.1.tokens ++ pair.2.tokens := by
  induction pairs with
  | nil => rfl
  | cons pair others ih => rw [pairsTokens, ih, List.flatMap_cons]

end MonkeyLang
