import MonkeyLang.Node
import MonkeyLang.Token.Text

/-!
The canonical text of a tree. Operators are written with all their parentheses, statements one
behind the other; an expression statement is closed by a semicolon where another one follows it.
-/

namespace MonkeyLang

def commaSeparated (texts : List String) : String := ", ".intercalate texts

/-- The text of a node between braces. A sequence without statements leaves one blank there. -/
def Node.enclosed (node : Node) (text : String) : String :=
  if node.statements?.any List.isEmpty then "\x7b \x7d" else "\x7b " ++ text ++ " \x7d"

mutual

/-- The canonical text of a node. -/
def Node.text : Node → String
  | .program statements | .block _ statements => statementsText statements
  | .letStmt _ name value => "let " ++ name.text ++ " = " ++ value.text ++ ";"
  | .returnStmt _ value => "return " ++ value.text ++ ";"
  | .exprStmt _ expr => expr.text
  | .ident _ name => name
  | .int _ value => toString value
  | .str _ value => "\"" ++ value ++ "\""
  | .bool _ value => if value then "true" else "false"
  | .prefixOp _ op operand => "(" ++ op ++ operand.text ++ ")"
  | .infixOp _ left op right => "(" ++ left.text ++ " " ++ op ++ " " ++ right.text ++ ")"
  | .cond _ condition consequence alternative =>
    "if (" ++ condition.text ++ ") " ++ consequence.enclosed consequence.text ++
      alternativeText alternative
  | .fn _ params body =>
    "fn(" ++ commaSeparated (nodeTexts params) ++ ") " ++ body.enclosed body.text
  | .call _ callee args => callee.text ++ "(" ++ commaSeparated (nodeTexts args) ++ ")"
  | .array _ elements => "[" ++ commaSeparated (nodeTexts elements) ++ "]"
  | .hash _ pairs => "\x7b" ++ commaSeparated (pairTexts pairs) ++ "\x7d"
  | .index _ collection key => "(" ++ collection.text ++ "[" ++ key.text ++ "])"
  | .bare role token => (Node.bare role token).formName ++ "(token=" ++ token.text ++ ")"
  | .foreign typeName => typeName

/-- The text of an alternative, which is written even if it has no statements. -/
def alternativeText : Option Node → String
  | none => ""
  | some node => " else " ++ node.enclosed node.text

def statementsText : List Node → String
  | [] => ""
  | statement :: others =>
    statement.text ++ (if statement.isExprStmt && !others.isEmpty then ";" else "") ++
      statementsText others

def nodeTexts : List Node → List String
  | [] => []
  | node :: others => node.text :: nodeTexts others

def pairTexts : List (Node × Node) → List String
  | [] => []
  | (key, value) :: others => (key.text ++ ": " ++ value.text) :: pairTexts others

end

end MonkeyLang
