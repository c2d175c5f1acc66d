import MonkeyLang.Proofs.Grammar.Lookahead

/-!
Putting derivations together: longer chains and trailers, and expressions of looser tiers.
-/

namespace MonkeyLang

namespace Derivation

variable {tokens mid rest : List Token} {tier inner : Tier} {left node expr : Node}

def trailersAppend : {tokens : List Token} → {left : Node} →
    Derivation (.trailers left node) tokens mid → Derivation (.trailers node expr) mid rest →
    Derivation (.trailers left expr) tokens rest
  | _, _, .trailersEnd, e => e
  | _, _, .call hp l d, e => .call hp l (trailersAppend d e)
  | _, _, .index hb hc k d, e => .index hb hc k (trailersAppend d e)

def chainAppend : {tokens : List Token} → {left : Node} →
    Derivation (.chain tier left node) tokens mid → Derivation (.chain tier node expr) mid rest →
    Derivation (.chain tier left expr) tokens rest
  | _, _, .chainEnd, e => e
  | _, _, .chain hop hi r d, e => .chain hop hi r (chainAppend d e)

def widen (hi : tier.tighter? = some inner) (d : Derivation (.expr inner expr) tokens rest) :
    Derivation (.expr tier expr) tokens rest := .chained hi d .chainEnd

/-- An expression of a tier is one of each looser tier. -/
theorem loosen {tier' : Tier} (d : Derivation (.expr tier' expr) tokens rest)
    (h : tier.strength.level ≤ tier'.strength.level) :
    Nonempty (Derivation (.expr tier expr) tokens rest) := by
  cases tier <;> cases tier' <;> first
    | exact absurd h (by decide)
    | exact ⟨d⟩
    | exact ⟨widen rfl d⟩
    | exact ⟨widen rfl (widen rfl d)⟩
    | exact ⟨widen rfl (widen rfl (widen rfl d))⟩
    | exact ⟨widen rfl (widen rfl (widen rfl (widen rfl d)))⟩

/-- One more operator and its right operand behind an expression of the operator's tier. -/
theorem infix_right {op : Token} {right : Node}
    (d : Derivation (.expr tier left) tokens (op :: mid)) (hop : op.kind ∈ tier.operators)
    (hi : tier.tighter? = some inner) (e : Derivation (.expr inner right) mid rest) :
    Nonempty (Derivation (.expr tier (.infixOp op left op.literal right)) tokens rest) := by
  cases d with
  | chained hi' first d => exact ⟨.chained hi' first (d.chainAppend (.chain hop hi e .chainEnd))⟩
  | prefixOp => cases hi
  | trailed => cases hi

end Derivation

end MonkeyLang
