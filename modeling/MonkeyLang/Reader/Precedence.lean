import MonkeyLang.Token

/-!
How strongly operators bind.
-/

namespace MonkeyLang

/-- The binding strengths, the weakest first. -/
inductive Precedence
  | lowest | equality | comparison | sum | product | unary | call | index
  deriving DecidableEq, Repr, Inhabited

namespace Precedence

def level : Precedence → Nat
  | lowest => 1
  | equality => 2
  | comparison => 3
  | sum => 4
  | product => 5
  | unary => 6
  | call => 7
  | index => 8

/-- The strength with which a token binds to the expression on its left. -/
def ofKind : Kind → Precedence
  | .eq | .notEq => equality
  | .lt | .gt => comparison
  | .plus | .minus => sum
  | .slash | .asterisk => product
  | .lparen => call
  | .lbracket => index
  | _ => lowest

end Precedence

end MonkeyLang
