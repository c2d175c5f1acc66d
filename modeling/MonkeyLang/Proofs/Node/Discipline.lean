import MonkeyLang.Node

/-!
Where return statements stand in a tree. In a disciplined tree a conditional with a return statement
in its blocks is a statement by itself and no operand.
-/

namespace MonkeyLang

mutual

/-- Whether a return statement stands in a node outside function literals. -/
def Node.returns : Node → Bool
  | .returnStmt .. => true
  | .program statements | .block _ statements => nodesReturn statements
  | .letStmt _ _ value => value.returns
  | .exprStmt _ expr => expr.returns
  | .prefixOp _ _ operand => operand.returns
  | .infixOp _ left _ right => left.returns || right.returns
  | .cond _ condition consequence alternative =>
    condition.returns || consequence.returns || alternativeReturns alternative
  | .call _ callee args => callee.returns || nodesReturn args
  | .array _ elements => nodesReturn elements
  | .hash _ pairs => pairsReturn pairs
  | .index _ collection key => collection.returns || key.returns
  | .ident .. | .int .. | .str .. | .bool .. | .fn .. | .bare .. | .foreign _ => false

def alternativeReturns : Option Node → Bool
  | none => false
  | some node => node.returns

def nodesReturn : List Node → Bool
  | [] => false
  | node :: others => node.returns || nodesReturn others

def pairsReturn : List (Node × Node) → Bool
  | [] => false
  | (key, value) :: others => key.returns || value.returns || pairsReturn others

end

mutual

/-- Whether every conditional in a node that has a return statement in its blocks is the whole
expression of an expression statement. `whole` tells whether the node itself is that. -/
def Node.disciplined : Bool → Node → Bool
  | _, .program statements | _, .block _ statements => nodesDisciplined statements
  | _, .letStmt _ _ value | _, .returnStmt _ value => value.disciplined false
  | _, .exprStmt _ expr => expr.disciplined true
  | _, .prefixOp _ _ operand => operand.disciplined false
  | _, .infixOp _ left _ right => left.disciplined false && right.disciplined false
  | whole, .cond _ condition consequence alternative =>
    condition.disciplined false && consequence.disciplined false &&
      alternativeDisciplined alternative &&
      (whole || !(consequence.returns || alternativeReturns alternative))
  | _, .fn _ _ body => body.disciplined false
  | _, .call _ callee args => callee.disciplined false && nodesDisciplined args
  | _, .array _ elements => nodesDisciplined elements
  | _, .hash _ pairs => pairsDisciplined pairs
  | _, .index _ collection key => collection.disciplined false && key.disciplined false
  | _, .ident .. | _, .int .. | _, .str .. | _, .bool .. | _, .bare .. | _, .foreign _ => true

def alternativeDisciplined : Option Node → Bool
  | none => true
  | some node => node.disciplined false

def nodesDisciplined : List Node → Bool
  | [] => true
  | node :: others => node.disciplined false && nodesDisciplined others

def pairsDisciplined : List (Node × Node) → Bool
  | [] => true
  | (key, value) :: others =>
    key.disciplined false && value.disciplined false && pairsDisciplined others

end

/-- Whether an expression has blocks with a return statement that may be met where it is the whole
of an expression statement. -/
def Node.escapes : Node → Bool → Bool
  | .cond _ _ consequence alternative, true =>
    consequence.returns || alternativeReturns alternative
  | _, _ => false

theorem Node.not_escapes (node : Node) : ¬ node.escapes false = true := by
  cases node <;> exact Bool.false_ne_true

theorem Node.returns_of_escapes (node : Node) {whole : Bool} (h : node.escapes whole = true) :
    node.returns = true := by
  unfold escapes at h
  split at h
  · rw [returns, Bool.or_assoc, h, Bool.or_true]
  · cases h

end MonkeyLang
