import MonkeyLang.Proofs.Grammar
import Mathlib.Tactic.Common

/-!
What stands at the two ends of a phrase: the token that it begins with, and the tokens that may
follow where it is read to its end. One token is enough to tell the forms apart.
-/

namespace MonkeyLang

/-- The kinds with which an expression begins. -/
def Kind.opening : List Kind :=
  [.ident, .int, .string, .kwTrue, .kwFalse, .bang, .minus, .lparen, .kwIf, .kwFn, .lbracket,
    .lbrace]

/-- The kinds behind which no expression goes on. -/
def Kind.closing : List Kind :=
  [.rparen, .rbracket, .rbrace, .comma, .colon, .semicolon, .eof]

/-- The strength of the operators that make an expression of a tier longer. -/
def Tier.strength : Tier → Precedence
  | equality => .equality
  | comparison => .comparison
  | sum => .sum
  | product => .product
  | unary => .call

/-- The strength that all operators of a tier and of the tighter ones exceed. -/
def Tier.below : Tier → Precedence
  | equality => .lowest
  | comparison => .equality
  | sum => .comparison
  | product => .sum
  | unary => .product

theorem Tier.below_lt (tier : Tier) : tier.below.level < tier.strength.level := by
  cases tier <;> decide

theorem Tier.le_below {tier : Tier} {kind : Kind}
    (h : (Precedence.ofKind kind).level < tier.strength.level) :
    (Precedence.ofKind kind).level ≤ tier.below.level := by
  cases tier <;> cases kind <;> revert h <;> decide

theorem Tier.strength_lt {tier inner : Tier} (h : tier.tighter? = some inner) :
    tier.strength.level < inner.strength.level := by
  cases tier <;> cases h <;> decide

theorem Tier.ofKind_eq {tier : Tier} {kind : Kind} (h : kind ∈ tier.operators) :
    Precedence.ofKind kind = tier.strength := by
  cases tier <;> simp only [operators, List.mem_cons, List.not_mem_nil, or_false] at h
  all_goals rcases h with rfl | rfl <;> rfl

theorem Tier.ne_bracket {tier : Tier} {kind : Kind} (h : kind ∈ tier.operators) :
    kind ≠ .lparen ∧ kind ≠ .lbracket := by
  constructor <;> rintro rfl <;> cases tier <;> simp [operators] at h

namespace Phrase

def least : Phrase → Nat
  | program _ | statements _ | ending | chain .. | trailers .. => 0
  | _ => 1

/-- What stands in front of a phrase that has to begin with certain tokens. -/
def Begins : Phrase → List Token → Prop
  | statement _, tokens => front tokens ∈ Kind.kwLet :: Kind.kwReturn :: Kind.opening
  | expr .., tokens | atom _, tokens | item .., tokens => front tokens ∈ Kind.opening
  | _, _ => True

/-- The next token makes an expression of a tier no longer, nor a conditional inside it. -/
def Halts (tier : Tier) (rest : List Token) : Prop :=
  front rest ≠ .kwElse ∧ (Precedence.ofKind (front rest)).level < tier.strength.level

/-- What may stand behind a phrase for it to be read to its end. -/
def Ends : Phrase → List Token → Prop
  | statements _, rest => front rest = .eof ∨ front rest = .rbrace
  | statement _, rest => front rest ≠ .kwElse ∧ front rest ≠ .semicolon
  | ending, rest => front rest ≠ .semicolon
  | expr tier _, rest | chain tier .., rest => Halts tier rest
  | trailers .., rest => Halts .unary rest
  | atom _, rest => front rest ≠ .kwElse
  | item .parameter _, _ => True
  | item .., rest => Halts .equality rest
  | _, _ => True

theorem Halts.tighter {tier inner : Tier} {rest : List Token} (h : Halts tier rest)
    (hi : tier.tighter? = some inner) : Halts inner rest :=
  ⟨h.1, h.2.trans (Tier.strength_lt hi)⟩

theorem halts_of_closing {tokens : List Token} (tier : Tier) (h : front tokens ∈ Kind.closing) :
    Halts tier tokens := by
  simp only [Kind.closing, List.mem_cons, List.not_mem_nil, or_false] at h
  rcases h with h | h | h | h | h | h | h <;>
    exact ⟨by rw [h]; decide, by rw [h]; cases tier <;> decide⟩

theorem halts_of_kind {tier : Tier} {token : Token} {rest : List Token} {kind : Kind}
    (hk : token.kind = kind) (hmem : kind ∈ Kind.closing) : Halts tier (token :: rest) :=
  halts_of_closing tier (by rw [front_cons, hk]; exact hmem)

end Phrase

theorem Item.ofPair_injective : Function.Injective Item.ofPair := by
  intro p q h
  simp only [ofPair, Item.pair.injEq] at h
  exact Prod.ext h.1 h.2

theorem Bracket.close_ne_eof (bracket : Bracket) : bracket.close ≠ .eof := by
  cases bracket <;> decide

theorem Bracket.close_mem (bracket : Bracket) : bracket.close ∈ Kind.closing := by
  cases bracket <;> decide

namespace Derivation

variable {phrase : Phrase} {tokens mid rest : List Token} {tier inner : Tier} {left expr : Node}

theorem length_le (d : Derivation phrase tokens rest) :
    rest.length + phrase.least ≤ tokens.length := by
  induction d <;> simp only [Phrase.least, List.length_cons] at * <;> omega

theorem begins (d : Derivation phrase tokens rest) : phrase.Begins tokens := by
  induction d with
  | program | noStatements | statements | semicolon | noSemicolon | closedBlock | openBlock
  | chainEnd | chain | trailersEnd | call | index | emptyList | list | noOthers | others => trivial
  | letStmt h | returnStmt h => simp [Phrase.Begins, h]
  | exprStmt _ _ ih => exact List.mem_cons_of_mem _ (List.mem_cons_of_mem _ ih)
  | chained _ _ _ ih | trailed _ _ ih | value _ ih | pair _ _ _ ih => exact ih
  | prefixOp h => rcases h with h | h <;> simp [Phrase.Begins, Kind.opening, h]
  | ident h | int h | str h | boolTrue h | boolFalse h | group h | cond h | condElse h | fn h
  | array h | hash h | parameter h => simp [Phrase.Begins, Kind.opening, h]

theorem halts_of_chain (d : Derivation (.chain tier left expr) mid rest)
    (hi : tier.tighter? = some inner) (h : Phrase.Halts tier rest) : Phrase.Halts inner mid := by
  cases d with
  | chainEnd => exact h.tighter hi
  | chain hop =>
    refine ⟨?_, ?_⟩
    · intro he
      rw [front_cons] at he
      rw [he] at hop
      cases tier <;> simp [Tier.operators] at hop
    · rw [front_cons, Tier.ofKind_eq hop]
      exact Tier.strength_lt hi

theorem front_of_trailers (d : Derivation (.trailers left expr) mid rest)
    (h : front rest ≠ .kwElse) : front mid ≠ .kwElse := by
  cases d with
  | trailersEnd => exact h
  | call hk | index hk => simp [hk]

theorem halts_of_ending (d : Derivation .ending mid rest) (h : front rest ≠ .kwElse) :
    Phrase.Halts .equality mid := by
  cases d with
  | semicolon hk => exact Phrase.halts_of_kind hk (by decide)
  | noSemicolon hk =>
    refine ⟨h, ?_⟩
    revert hk
    generalize front mid = kind
    cases kind <;> decide

theorem ends_of_statements {nodes : List Node} {node : Node}
    (d : Derivation (.statements nodes) mid rest) (h : (Phrase.statements nodes).Ends rest) :
    (Phrase.statement node).Ends mid := by
  cases d with
  | noStatements => rcases h with h | h <;> exact ⟨by rw [h]; decide, by rw [h]; decide⟩
  | statements d =>
    have hb := d.begins
    refine ⟨fun he ↦ ?_, fun he ↦ ?_⟩
    · simp [Phrase.Begins, Kind.opening, he] at hb
    · simp [Phrase.Begins, Kind.opening, he] at hb

theorem halts_of_others {sort : Item.Sort} {bracket : Bracket} {items : List Item}
    (d : Derivation (.others sort bracket items) mid rest) : Phrase.Halts .equality mid := by
  cases d with
  | noOthers hk => exact Phrase.halts_of_kind hk bracket.close_mem
  | others hk => exact Phrase.halts_of_kind hk (by decide)

theorem ends_of_others {sort : Item.Sort} {bracket : Bracket} {items : List Item} {item : Item}
    (d : Derivation (.others sort bracket items) mid rest) : (Phrase.item sort item).Ends mid := by
  cases sort with
  | parameter => trivial
  | value | pair => exact d.halts_of_others

end Derivation

end MonkeyLang
