import MonkeyLang.Node

/-!
Equality of trees: the same form with equal fields, the stored tokens included.
-/

namespace MonkeyLang

mutual

/-- Whether two nodes are equal in every field. -/
def Node.beq : Node → Node → Bool
  | .program ss, other => match other with
    | .program ss' => nodesEqual ss ss'
    | _ => false
  | .letStmt t x v, other => match other with
    | .letStmt t' x' v' => t == t' && x.beq x' && v.beq v'
    | _ => false
  | .returnStmt t v, other => match other with
    | .returnStmt t' v' => t == t' && v.beq v'
    | _ => false
  | .exprStmt t e, other => match other with
    | .exprStmt t' e' => t == t' && e.beq e'
    | _ => false
  | .block t ss, other => match other with
    | .block t' ss' => t == t' && nodesEqual ss ss'
    | _ => false
  | .ident t x, other => match other with
    | .ident t' x' => t == t' && x == x'
    | _ => false
  | .int t n, other => match other with
    | .int t' n' => t == t' && n == n'
    | _ => false
  | .str t s, other => match other with
    | .str t' s' => t == t' && s == s'
    | _ => false
  | .bool t b, other => match other with
    | .bool t' b' => t == t' && b == b'
    | _ => false
  | .prefixOp t op e, other => match other with
    | .prefixOp t' op' e' => t == t' && op == op' && e.beq e'
    | _ => false
  | .infixOp t l op r, other => match other with
    | .infixOp t' l' op' r' => t == t' && l.beq l' && op == op' && r.beq r'
    | _ => false
  | .cond t c b a, other => match other with
    | .cond t' c' b' a' => t == t' && c.beq c' && b.beq b' && alternativesEqual a a'
    | _ => false
  | .fn t ps b, other => match other with
    | .fn t' ps' b' => t == t' && nodesEqual ps ps' && b.beq b'
    | _ => false
  | .call t f as, other => match other with
    | .call t' f' as' => t == t' && f.beq f' && nodesEqual as as'
    | _ => false
  | .array t es, other => match other with
    | .array t' es' => t == t' && nodesEqual es es'
    | _ => false
  | .hash t ps, other => match other with
    | .hash t' ps' => t == t' && pairsEqual ps ps'
    | _ => false
  | .index t c k, other => match other with
    | .index t' c' k' => t == t' && c.beq c' && k.beq k'
    | _ => false
  | .bare r t, other => match other with
    | .bare r' t' => r == r' && t == t'
    | _ => false
  | .foreign n, other => match other with
    | .foreign n' => n == n'
    | _ => false

def alternativesEqual : Option Node → Option Node → Bool
  | none, none => true
  | some b, some b' => b.beq b'
  | _, _ => false

def nodesEqual : List Node → List Node → Bool
  | [], [] => true
  | n :: ns, n' :: ns' => n.beq n' && nodesEqual ns ns'
  | _, _ => false

def pairsEqual : List (Node × Node) → List (Node × Node) → Bool
  | [], [] => true
  | (k, v) :: ps, (k', v') :: ps' => k.beq k' && v.beq v' && pairsEqual ps ps'
  | _, _ => false

end

instance : BEq Node := ⟨Node.beq⟩

end MonkeyLang
