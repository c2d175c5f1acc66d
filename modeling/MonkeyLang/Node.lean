import MonkeyLang.Token

/-!
Syntax trees. One type of nodes serves statements, expressions and whole programs, and a node of
any form may stand in any position; the trees that source text gives are a part of them. Every node
except a program holds the token it was read from.
-/

namespace MonkeyLang

inductive Role
  | plain | statement | expression
  deriving DecidableEq, Repr, Inhabited

/-- A node of a syntax tree. -/
inductive Node
  | program (statements : List Node)
  | letStmt (token : Token) (name : Node) (value : Node)
  | returnStmt (token : Token) (value : Node)
  | exprStmt (token : Token) (expr : Node)
  | block (brace : Token) (statements : List Node)
  | ident (token : Token) (name : String)
  | int (token : Token) (value : Int)
  | str (token : Token) (value : String)
  | bool (token : Token) (value : Bool)
  | prefixOp (token : Token) (op : String) (operand : Node)
  | infixOp (token : Token) (left : Node) (op : String) (right : Node)
  | cond (token : Token) (condition consequence : Node) (alternative : Option Node)
  | fn (token : Token) (params : List Node) (body : Node)
  | call (token : Token) (callee : Node) (args : List Node)
  | array (token : Token) (elements : List Node)
  | hash (token : Token) (pairs : List (Node × Node))
  | index (token : Token) (collection : Node) (key : Node)
  /-- A node of no form, of which only the role is known. -/
  | bare (role : Role) (token : Token)
  /-- Something that is no node at all, known by the name of its type. -/
  | foreign (typeName : String)

instance : Inhabited Node := ⟨.program []⟩

namespace Node

def formName : Node → String
  | program _ => "Program"
  | letStmt .. => "LetStatement"
  | returnStmt .. => "ReturnStatement"
  | exprStmt .. => "ExpressionStatement"
  | block .. => "BlockStatement"
  | ident .. => "Identifier"
  | int .. => "IntegerLiteral"
  | str .. => "StringLiteral"
  | bool .. => "BooleanLiteral"
  | prefixOp .. => "PrefixExpression"
  | infixOp .. => "InfixExpression"
  | cond .. => "IfExpression"
  | fn .. => "FunctionLiteral"
  | call .. => "CallExpression"
  | array .. => "ArrayLiteral"
  | hash .. => "HashLiteral"
  | index .. => "IndexExpression"
  | bare .plain _ => "Node"
  | bare .statement _ => "Statement"
  | bare .expression _ => "Expression"
  | foreign typeName => typeName

/-- The role that a node's form gives it; a program and what is no node have none. -/
def role? : Node → Option Role
  | program _ | foreign _ => none
  | letStmt .. | returnStmt .. | exprStmt .. | block .. => some .statement
  | bare role _ => some role
  | _ => some .expression

def token? : Node → Option Token
  | program _ | foreign _ => none
  | letStmt token .. | returnStmt token .. | exprStmt token .. | block token .. | ident token ..
  | int token .. | str token .. | bool token .. | prefixOp token .. | infixOp token ..
  | cond token .. | fn token .. | call token .. | array token .. | hash token .. | index token ..
  | bare _ token => some token

/-- The literal of a node's token; that of a program is the one of its first statement. -/
def tokenLiteral : Node → String
  | program [] => ""
  | program (statement :: _) => statement.tokenLiteral
  | node => (node.token?.map Token.literal).getD ""

def isExprStmt : Node → Bool
  | exprStmt .. => true
  | _ => false

def statements? : Node → Option (List Node)
  | program statements | block _ statements => some statements
  | _ => none

end Node

end MonkeyLang
