import MonkeyLang.Node.Text
import MonkeyLang.Proofs.Token.Lexeme
import MonkeyLang.Reader.Expression
import Mathlib.Data.List.Forall2

/-!
The trees that source text can give, and what a tree is apart from the tokens it stores.
-/

namespace MonkeyLang

mutual

/-- The tree with the end token in place of all stored tokens. -/
def Node.untoken : Node → Node
  | .program statements => .program (nodesUntoken statements)
  | .letStmt _ name value => .letStmt .eof name.untoken value.untoken
  | .returnStmt _ value => .returnStmt .eof value.untoken
  | .exprStmt _ expr => .exprStmt .eof expr.untoken
  | .block _ statements => .block .eof (nodesUntoken statements)
  | .ident _ name => .ident .eof name
  | .int _ value => .int .eof value
  | .str _ value => .str .eof value
  | .bool _ value => .bool .eof value
  | .prefixOp _ op operand => .prefixOp .eof op operand.untoken
  | .infixOp _ left op right => .infixOp .eof left.untoken op right.untoken
  | .cond _ condition consequence alternative =>
    .cond .eof condition.untoken consequence.untoken (alternativeUntoken alternative)
  | .fn _ params body => .fn .eof (nodesUntoken params) body.untoken
  | .call _ callee args => .call .eof callee.untoken (nodesUntoken args)
  | .array _ elements => .array .eof (nodesUntoken elements)
  | .hash _ pairs => .hash .eof (pairsUntoken pairs)
  | .index _ collection key => .index .eof collection.untoken key.untoken
  | .bare role _ => .bare role .eof
  | .foreign typeName => .foreign typeName

def alternativeUntoken : Option Node → Option Node
  | none => none
  | some node => some node.untoken

def nodesUntoken : List Node → List Node
  | [] => []
  | node :: others => node.untoken :: nodesUntoken others

def pairsUntoken : List (Node × Node) → List (Node × Node)
  | [] => []
  | (key, value) :: others => (key.untoken, value.untoken) :: pairsUntoken others

end

inductive Node.Place
  | program | statement | block | name | expression

/-- The trees of the forms that reading builds, with names, numbers, strings and operators that can
be written. -/
inductive Node.Readable : Node.Place → Node → Prop
  | program {nodes : List Node} :
      (∀ node ∈ nodes, Readable .statement node) → Readable .program (.program nodes)
  | letStmt {token : Token} {name value : Node} :
      Readable .name name → Readable .expression value →
      Readable .statement (.letStmt token name value)
  | returnStmt {token : Token} {value : Node} :
      Readable .expression value → Readable .statement (.returnStmt token value)
  | exprStmt {token : Token} {expr : Node} :
      Readable .expression expr → Readable .statement (.exprStmt token expr)
  | block {brace : Token} {nodes : List Node} :
      (∀ node ∈ nodes, Readable .statement node) → Readable .block (.block brace nodes)
  | name {token : Token} {word : String} :
      IsWord word → Kind.ofWord word = .ident → Readable .name (.ident token word)
  | ident {node : Node} : Readable .name node → Readable .expression node
  | int {token : Token} {value : Int} :
      0 ≤ value → value ≤ Reader.maxInteger → Readable .expression (.int token value)
  | str {token : Token} {value : String} :
      '"' ∉ value.toList → Readable .expression (.str token value)
  | bool {token : Token} {value : Bool} : Readable .expression (.bool token value)
  | prefixOp {token : Token} {op : String} {operand : Node} :
      op ∈ ["!", "-"] → Readable .expression operand →
      Readable .expression (.prefixOp token op operand)
  | infixOp {token : Token} {op : String} {left right : Node} :
      op ∈ ["+", "-", "*", "/", "<", ">", "==", "!="] →
      Readable .expression left → Readable .expression right →
      Readable .expression (.infixOp token left op right)
  | cond {token : Token} {condition consequence : Node} :
      Readable .expression condition → Readable .block consequence →
      Readable .expression (.cond token condition consequence none)
  | condElse {token : Token} {condition consequence alternative : Node} :
      Readable .expression condition → Readable .block consequence →
      Readable .block alternative →
      Readable .expression (.cond token condition consequence (some alternative))
  | fn {token : Token} {params : List Node} {body : Node} :
      (∀ param ∈ params, Readable .name param) → Readable .block body →
      Readable .expression (.fn token params body)
  | call {token : Token} {callee : Node} {args : List Node} :
      Readable .expression callee → (∀ arg ∈ args, Readable .expression arg) →
      Readable .expression (.call token callee args)
  | array {token : Token} {elements : List Node} :
      (∀ element ∈ elements, Readable .expression element) →
      Readable .expression (.array token elements)
  | hash {token : Token} {pairs : List (Node × Node)} :
      (∀ pair ∈ pairs, Readable .expression pair.1) →
      (∀ pair ∈ pairs, Readable .expression pair.2) →
      Readable .expression (.hash token pairs)
  | index {token : Token} {collection key : Node} :
      Readable .expression collection → Readable .expression key →
      Readable .expression (.index token collection key)

theorem map_eq_map_iff_forall₂ {α β : Type} {f : α → β} {as bs : List α} :
    as.map f = bs.map f ↔ List.Forall₂ (fun a b ↦ f a = f b) as bs := by
  rw [← List.forall₂_eq_eq_eq, List.forall₂_map_left_iff, List.forall₂_map_right_iff]

theorem nodesUntoken_eq_map (nodes : List Node) : nodesUntoken nodes = nodes.map Node.untoken := by
  induction nodes with
  | nil => rfl
  | cons node others ih => rw [nodesUntoken, ih, List.map_cons]

theorem pairsUntoken_eq_map (pairs : List (Node × Node)) :
    pairsUntoken pairs = pairs.map (Prod.map Node.untoken Node.untoken) := by
  induction pairs with
  | nil => rfl
  | cons pair others ih =>
    obtain ⟨key, value⟩ := pair
    rw [pairsUntoken, ih, List.map_cons]
    rfl

theorem nodeTexts_eq_map (nodes : List Node) : nodeTexts nodes = nodes.map Node.text := by
  induction nodes with
  | nil => rfl
  | cons node others ih => rw [nodeTexts, ih, List.map_cons]

def pairText (pair : Node × Node) : String := pair.1.text ++ ": " ++ pair.2.text

theorem pairTexts_eq_map (pairs : List (Node × Node)) : pairTexts pairs = pairs.map pairText := by
  induction pairs with
  | nil => rfl
  | cons pair others ih =>
    obtain ⟨key, value⟩ := pair
    rw [pairTexts, ih, List.map_cons, pairText]

namespace Node

theorem isExprStmt_untoken (node : Node) : node.untoken.isExprStmt = node.isExprStmt := by
  cases node <;> rfl

theorem statements?_untoken (node : Node) :
    node.untoken.statements? = node.statements?.map nodesUntoken := by
  cases node <;> rfl

theorem enclosed_untoken (node : Node) (text : String) :
    node.untoken.enclosed text = node.enclosed text := by
  have hempty : ∀ nodes, (nodesUntoken nodes).isEmpty = nodes.isEmpty := by
    intro nodes
    cases nodes <;> rfl
  rw [enclosed, enclosed, statements?_untoken]
  cases node.statements? with
  | none => rfl
  | some nodes => simp only [Option.map_some, Option.any_some, hempty]

theorem statementsText_untoken {nodes : List Node}
    (h : ∀ node ∈ nodes, node.untoken.text = node.text) :
    statementsText (nodesUntoken nodes) = statementsText nodes := by
  induction nodes with
  | nil => rfl
  | cons node others ih =>
    have hempty : (nodesUntoken others).isEmpty = others.isEmpty := by cases others <;> rfl
    rw [nodesUntoken, statementsText, statementsText, h node (List.mem_cons_self ..),
      ih fun node hn ↦ h node (List.mem_cons_of_mem _ hn), isExprStmt_untoken, hempty]

theorem nodeTexts_untoken {nodes : List Node} (h : ∀ node ∈ nodes, node.untoken.text = node.text) :
    nodeTexts (nodesUntoken nodes) = nodeTexts nodes := by
  rw [nodeTexts_eq_map, nodeTexts_eq_map, nodesUntoken_eq_map, List.map_map]
  exact List.map_congr_left h

theorem pairTexts_untoken {pairs : List (Node × Node)}
    (hk : ∀ pair ∈ pairs, pair.1.untoken.text = pair.1.text)
    (hv : ∀ pair ∈ pairs, pair.2.untoken.text = pair.2.text) :
    pairTexts (pairsUntoken pairs) = pairTexts pairs := by
  rw [pairTexts_eq_map, pairTexts_eq_map, pairsUntoken_eq_map, List.map_map]
  refine List.map_congr_left fun pair hp ↦ ?_
  have hkey := hk pair hp
  have hvalue := hv pair hp
  simp only [Function.comp, pairText, Prod.map, hkey, hvalue]

/-- The text of a tree that can be read does not depend on the stored tokens. -/
theorem Readable.text_untoken {place : Place} {node : Node} (h : node.Readable place) :
    node.untoken.text = node.text := by
  induction h with
  | program _ ih | block _ ih => exact statementsText_untoken ih
  | letStmt _ _ ih ih' => simp only [untoken, text, ih, ih']
  | returnStmt _ ih | exprStmt _ ih | prefixOp _ _ ih => simp only [untoken, text, ih]
  | name | int | str | bool => rfl
  | ident _ ih => exact ih
  | infixOp _ _ _ ih ih' | index _ _ ih ih' => simp only [untoken, text, ih, ih']
  | cond _ _ ih ih' =>
    simp only [untoken, text, alternativeUntoken, alternativeText, enclosed_untoken, ih, ih']
  | condElse _ _ _ ih ih' ih'' =>
    simp only [untoken, text, alternativeUntoken, alternativeText, enclosed_untoken, ih, ih', ih'']
  | fn _ _ ih ih' => simp only [untoken, text, enclosed_untoken, nodeTexts_untoken ih, ih']
  | call _ _ ih ih' => simp only [untoken, text, ih, nodeTexts_untoken ih']
  | array _ ih => simp only [untoken, text, nodeTexts_untoken ih]
  | hash _ _ ih ih' => simp only [untoken, text, pairTexts_untoken ih ih']

theorem Readable.text_eq {place : Place} {node other : Node} (h : node.Readable place)
    (h' : other.Readable place) (he : node.untoken = other.untoken) : node.text = other.text := by
  rw [← h.text_untoken, he, h'.text_untoken]

end Node

end MonkeyLang
