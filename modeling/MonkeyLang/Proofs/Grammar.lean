import MonkeyLang.Proofs.Reading
import Mathlib.Data.List.Infix

/-!
The grammar of the language. A derivation of a phrase from `tokens` to `rest` shows that the tokens
in front of `rest` spell the phrase. Operators of one tier are read from left to right; a statement
without a semicolon is not followed by a token that would make it longer; the closing brace of a
block is missing only where the tokens end.
-/

namespace MonkeyLang

/-- The tiers of expressions, that of the operators which bind most weakly first. -/
inductive Tier
  | equality | comparison | sum | product | unary
  deriving DecidableEq

namespace Tier

/-- The operators between two operands of the next tier. -/
def operators : Tier → List Kind
  | equality => [.eq, .notEq]
  | comparison => [.lt, .gt]
  | sum => [.plus, .minus]
  | product => [.asterisk, .slash]
  | unary => []

def tighter? : Tier → Option Tier
  | equality => some comparison
  | comparison => some sum
  | sum => some product
  | product => some unary
  | unary => none

end Tier

/-- The brackets that stand around lists. -/
inductive Bracket
  | round | square | curly

def Bracket.close : Bracket → Kind
  | round => .rparen
  | square => .rbracket
  | curly => .rbrace

/-- What a list between brackets consists of. -/
inductive Item
  | value (expr : Node)
  | parameter (name : Node)
  | pair (key value : Node)

def Item.ofPair (pair : Node × Node) : Item := .pair pair.1 pair.2

inductive Item.Sort
  | value | parameter | pair

/-- The tokens that make an expression longer. -/
def Kind.continuing : List Kind :=
  [.plus, .minus, .asterisk, .slash, .lt, .gt, .eq, .notEq, .lparen, .lbracket]

/-- The phrases of the grammar, each with the tree that it spells. -/
inductive Phrase
  | program (node : Node)
  | statements (nodes : List Node)
  | statement (node : Node)
  /-- The semicolon behind a statement, which may be left out. -/
  | ending
  | block (node : Node)
  | expr (tier : Tier) (node : Node)
  /-- Operators of one tier with their right operands, which make `left` into `node`. -/
  | chain (tier : Tier) (left node : Node)
  /-- Arguments of calls and keys in brackets, which make `left` into `node`. -/
  | trailers (left node : Node)
  | atom (node : Node)
  /-- The items of a list and its closing bracket. -/
  | list (sort : Item.Sort) (bracket : Bracket) (items : List Item)
  /-- The items behind one item of a list, and the closing bracket. -/
  | others (sort : Item.Sort) (bracket : Bracket) (items : List Item)
  | item (sort : Item.Sort) (item : Item)

/-- The derivations of a phrase from the first list of tokens, the second one being left over. -/
inductive Derivation : Phrase → List Token → List Token → Type
  | program {nodes : List Node} {tokens : List Token} :
      Derivation (.statements nodes) tokens [] → Derivation (.program (.program nodes)) tokens []
  | noStatements {tokens : List Token} : Derivation (.statements []) tokens tokens
  | statements {node : Node} {nodes : List Node} {tokens mid rest : List Token} :
      Derivation (.statement node) tokens mid → Derivation (.statements nodes) mid rest →
      Derivation (.statements (node :: nodes)) tokens rest
  | letStmt {start name sign : Token} {value : Node} {tokens mid rest : List Token} :
      start.kind = .kwLet → name.kind = .ident → sign.kind = .assign →
      Derivation (.expr .equality value) tokens mid → Derivation .ending mid rest →
      Derivation (.statement (.letStmt start (.ident name name.literal) value))
        (start :: name :: sign :: tokens) rest
  | returnStmt {start : Token} {value : Node} {tokens mid rest : List Token} :
      start.kind = .kwReturn →
      Derivation (.expr .equality value) tokens mid → Derivation .ending mid rest →
      Derivation (.statement (.returnStmt start value)) (start :: tokens) rest
  | exprStmt {start : Token} {expr : Node} {tokens mid rest : List Token} :
      Derivation (.expr .equality expr) (start :: tokens) mid → Derivation .ending mid rest →
      Derivation (.statement (.exprStmt start expr)) (start :: tokens) rest
  | semicolon {token : Token} {rest : List Token} :
      token.kind = .semicolon → Derivation .ending (token :: rest) rest
  | noSemicolon {rest : List Token} : front rest ∉ Kind.continuing → Derivation .ending rest rest
  | closedBlock {brace close : Token} {nodes : List Node} {tokens rest : List Token} :
      brace.kind = .lbrace → close.kind = .rbrace →
      Derivation (.statements nodes) tokens (close :: rest) →
      Derivation (.block (.block brace nodes)) (brace :: tokens) rest
  | openBlock {brace : Token} {nodes : List Node} {tokens : List Token} :
      brace.kind = .lbrace → Derivation (.statements nodes) tokens [] →
      Derivation (.block (.block brace nodes)) (brace :: tokens) []
  | chained {tier inner : Tier} {first expr : Node} {tokens mid rest : List Token} :
      tier.tighter? = some inner →
      Derivation (.expr inner first) tokens mid → Derivation (.chain tier first expr) mid rest →
      Derivation (.expr tier expr) tokens rest
  | chainEnd {tier : Tier} {expr : Node} {rest : List Token} :
      Derivation (.chain tier expr expr) rest rest
  | chain {tier inner : Tier} {op : Token} {left right expr : Node}
      {tokens mid rest : List Token} :
      op.kind ∈ tier.operators → tier.tighter? = some inner →
      Derivation (.expr inner right) tokens mid →
      Derivation (.chain tier (.infixOp op left op.literal right) expr) mid rest →
      Derivation (.chain tier left expr) (op :: tokens) rest
  | prefixOp {op : Token} {operand : Node} {tokens rest : List Token} :
      op.kind = .bang ∨ op.kind = .minus → Derivation (.expr .unary operand) tokens rest →
      Derivation (.expr .unary (.prefixOp op op.literal operand)) (op :: tokens) rest
  | trailed {atom expr : Node} {tokens mid rest : List Token} :
      Derivation (.atom atom) tokens mid → Derivation (.trailers atom expr) mid rest →
      Derivation (.expr .unary expr) tokens rest
  | trailersEnd {expr : Node} {rest : List Token} : Derivation (.trailers expr expr) rest rest
  | call {paren : Token} {callee expr : Node} {args : List Node} {tokens mid rest : List Token} :
      paren.kind = .lparen →
      Derivation (.list .value .round (args.map .value)) tokens mid →
      Derivation (.trailers (.call paren callee args) expr) mid rest →
      Derivation (.trailers callee expr) (paren :: tokens) rest
  | index {bracket close : Token} {collection key expr : Node} {tokens mid rest : List Token} :
      bracket.kind = .lbracket → close.kind = .rbracket →
      Derivation (.expr .equality key) tokens (close :: mid) →
      Derivation (.trailers (.index bracket collection key) expr) mid rest →
      Derivation (.trailers collection expr) (bracket :: tokens) rest
  | ident {token : Token} {rest : List Token} :
      token.kind = .ident → Derivation (.atom (.ident token token.literal)) (token :: rest) rest
  | int {token : Token} {rest : List Token} :
      token.kind = .int → Reader.decimal token.literal ≤ Reader.maxInteger →
      Derivation (.atom (.int token (Reader.decimal token.literal))) (token :: rest) rest
  | str {token : Token} {rest : List Token} :
      token.kind = .string → Derivation (.atom (.str token token.literal)) (token :: rest) rest
  | boolTrue {token : Token} {rest : List Token} :
      token.kind = .kwTrue → Derivation (.atom (.bool token true)) (token :: rest) rest
  | boolFalse {token : Token} {rest : List Token} :
      token.kind = .kwFalse → Derivation (.atom (.bool token false)) (token :: rest) rest
  | group {paren close : Token} {expr : Node} {tokens rest : List Token} :
      paren.kind = .lparen → close.kind = .rparen →
      Derivation (.expr .equality expr) tokens (close :: rest) →
      Derivation (.atom expr) (paren :: tokens) rest
  | cond {start paren close : Token} {condition consequence : Node}
      {tokens mid rest : List Token} :
      start.kind = .kwIf → paren.kind = .lparen → close.kind = .rparen →
      Derivation (.expr .equality condition) tokens (close :: mid) →
      Derivation (.block consequence) mid rest →
      Derivation (.atom (.cond start condition consequence none)) (start :: paren :: tokens) rest
  | condElse {start paren close word : Token} {condition consequence alternative : Node}
      {tokens mid tail rest : List Token} :
      start.kind = .kwIf → paren.kind = .lparen → close.kind = .rparen → word.kind = .kwElse →
      Derivation (.expr .equality condition) tokens (close :: mid) →
      Derivation (.block consequence) mid (word :: tail) →
      Derivation (.block alternative) tail rest →
      Derivation (.atom (.cond start condition consequence (some alternative)))
        (start :: paren :: tokens) rest
  | fn {start paren : Token} {params : List Node} {body : Node} {tokens mid rest : List Token} :
      start.kind = .kwFn → paren.kind = .lparen →
      Derivation (.list .parameter .round (params.map .parameter)) tokens mid →
      Derivation (.block body) mid rest →
      Derivation (.atom (.fn start params body)) (start :: paren :: tokens) rest
  | array {bracket : Token} {elements : List Node} {tokens rest : List Token} :
      bracket.kind = .lbracket →
      Derivation (.list .value .square (elements.map .value)) tokens rest →
      Derivation (.atom (.array bracket elements)) (bracket :: tokens) rest
  | hash {brace : Token} {pairs : List (Node × Node)} {tokens rest : List Token} :
      brace.kind = .lbrace →
      Derivation (.list .pair .curly (pairs.map .ofPair)) tokens rest →
      Derivation (.atom (.hash brace pairs)) (brace :: tokens) rest
  | emptyList {sort : Item.Sort} {bracket : Bracket} {close : Token} {rest : List Token} :
      close.kind = bracket.close → Derivation (.list sort bracket []) (close :: rest) rest
  | list {sort : Item.Sort} {bracket : Bracket} {item : Item} {items : List Item}
      {tokens mid rest : List Token} :
      Derivation (.item sort item) tokens mid → Derivation (.others sort bracket items) mid rest →
      Derivation (.list sort bracket (item :: items)) tokens rest
  | noOthers {sort : Item.Sort} {bracket : Bracket} {close : Token} {rest : List Token} :
      close.kind = bracket.close → Derivation (.others sort bracket []) (close :: rest) rest
  | others {sort : Item.Sort} {bracket : Bracket} {comma : Token} {item : Item}
      {items : List Item} {tokens mid rest : List Token} :
      comma.kind = .comma →
      Derivation (.item sort item) tokens mid → Derivation (.others sort bracket items) mid rest →
      Derivation (.others sort bracket (item :: items)) (comma :: tokens) rest
  | value {expr : Node} {tokens rest : List Token} :
      Derivation (.expr .equality expr) tokens rest →
      Derivation (.item .value (.value expr)) tokens rest
  | parameter {token : Token} {rest : List Token} :
      token.kind = .ident →
      Derivation (.item .parameter (.parameter (.ident token token.literal))) (token :: rest) rest
  | pair {colon : Token} {key value : Node} {tokens mid rest : List Token} :
      colon.kind = .colon →
      Derivation (.expr .equality key) tokens (colon :: mid) →
      Derivation (.expr .equality value) mid rest →
      Derivation (.item .pair (.pair key value)) tokens rest

namespace Derivation

variable {phrase : Phrase} {tokens rest : List Token}

/-- What is left over is the end of what was there. -/
theorem suffix (d : Derivation phrase tokens rest) : rest <:+ tokens := by
  induction d with
  | program d ih => exact ih
  | noStatements | noSemicolon | chainEnd | trailersEnd => exact List.suffix_rfl
  | statements d e ih ih' | chained _ d e ih ih' | trailed d e ih ih' | list d e ih ih' =>
    exact ih'.trans ih
  | semicolon | ident | int | str | boolTrue | boolFalse | emptyList | noOthers | parameter =>
    exact List.suffix_cons _ _
  | letStmt _ _ _ d e ih ih' =>
    exact (ih'.trans ih).trans ⟨[_, _, _], rfl⟩
  | returnStmt _ d e ih ih' | chain _ _ d e ih ih' | call _ d e ih ih' | others _ d e ih ih' =>
    exact (ih'.trans ih).trans (List.suffix_cons _ _)
  | exprStmt d e ih ih' => exact ih'.trans ih
  | closedBlock _ _ d ih | group _ _ d ih =>
    exact ((List.suffix_cons _ _).trans ih).trans (List.suffix_cons _ _)
  | openBlock _ d ih | prefixOp _ d ih | array _ d ih | hash _ d ih =>
    exact ih.trans (List.suffix_cons _ _)
  | index _ _ d e ih ih' =>
    exact ((ih'.trans (List.suffix_cons _ _)).trans ih).trans (List.suffix_cons _ _)
  | cond _ _ _ d e ih ih' =>
    exact ((ih'.trans (List.suffix_cons _ _)).trans ih).trans ⟨[_, _], rfl⟩
  | condElse _ _ _ _ d e f ih ih' ih'' =>
    exact ((((ih''.trans (List.suffix_cons _ _)).trans ih').trans (List.suffix_cons _ _)).trans
      ih).trans ⟨[_, _], rfl⟩
  | fn _ _ d e ih ih' => exact (ih'.trans ih).trans ⟨[_, _], rfl⟩
  | value d ih => exact ih
  | pair _ d e ih ih' => exact (ih'.trans (List.suffix_cons _ _)).trans ih

end Derivation

end MonkeyLang
