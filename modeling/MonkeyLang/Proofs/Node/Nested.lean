import MonkeyLang.Proofs.Evaluation.Frames
import MonkeyLang.Proofs.Node.Readable
import Mathlib.Data.List.Basic

/-!
All the nodes of a tree, the names that occur among them and the integer literals. Those of a tree
that can be read are not negative and no larger than the largest literal.
-/

namespace MonkeyLang

/-- The nodes that stand directly in a node. -/
def Node.children : Node → List Node
  | .program nodes | .block _ nodes | .array _ nodes => nodes
  | .letStmt _ target value => [target, value]
  | .returnStmt _ node | .exprStmt _ node | .prefixOp _ _ node => [node]
  | .infixOp _ left _ right => [left, right]
  | .cond _ condition consequence alternative => condition :: consequence :: alternative.toList
  | .fn _ params body => body :: params
  | .call _ callee args => callee :: args
  | .hash _ pairs => pairs.flatMap fun pair ↦ [pair.1, pair.2]
  | .index _ collection key => [collection, key]
  | .ident .. | .int .. | .str .. | .bool .. | .bare .. | .foreign _ => []

section Induction

-- the assumption is that of a mutual induction, of which not every part takes it
set_option linter.unusedSectionVars false

variable {motive : Node → Prop}
  (h : ∀ node : Node, (∀ child ∈ node.children, motive child) → motive node)

include h

mutual

/-- What holds of every node of whose children it holds, holds of all nodes. -/
theorem Node.induction_children : (node : Node) → motive node
  | .program nodes | .block _ nodes | .array _ nodes => h _ (Node.induction_nodes nodes)
  | .letStmt _ a b | .infixOp _ a _ b | .index _ a b => h _ (by
    simp [Node.children, Node.induction_children a, Node.induction_children b])
  | .returnStmt _ node | .exprStmt _ node | .prefixOp _ _ node => h _ (by
    simp [Node.children, Node.induction_children node])
  | .cond _ condition consequence alternative => h _ (by
    have hcondition := Node.induction_children condition
    have hconsequence := Node.induction_children consequence
    have halternative := Node.induction_alternative alternative
    simpa [Node.children, hcondition, hconsequence] using halternative)
  | .fn _ nodes node | .call _ node nodes => h _ (List.forall_mem_cons.mpr
    ⟨Node.induction_children node, Node.induction_nodes nodes⟩)
  | .hash _ pairs => h _ (Node.induction_pairs pairs)
  | .ident .. | .int .. | .str .. | .bool .. | .bare .. | .foreign _ =>
    h _ (by simp [Node.children])

theorem Node.induction_alternative : (alternative : Option Node) →
    ∀ node ∈ alternative, motive node
  | none => by simp
  | some node => by simpa using Node.induction_children node

theorem Node.induction_nodes : (nodes : List Node) → ∀ node ∈ nodes, motive node
  | [] => by simp
  | node :: others =>
    List.forall_mem_cons.mpr ⟨Node.induction_children node, Node.induction_nodes others⟩

theorem Node.induction_pairs : (pairs : List (Node × Node)) →
    ∀ node ∈ pairs.flatMap fun pair ↦ [pair.1, pair.2], motive node
  | [] => by simp
  | (key, value) :: others => List.forall_mem_cons.mpr ⟨Node.induction_children key,
    List.forall_mem_cons.mpr ⟨Node.induction_children value, Node.induction_pairs others⟩⟩

end

end Induction

mutual

/-- The nodes below a node, at any depth. -/
def Node.inner : Node → List Node
  | .program nodes | .block _ nodes | .array _ nodes => nodesNested nodes
  | .letStmt _ a b | .infixOp _ a _ b | .index _ a b => (a :: a.inner) ++ (b :: b.inner)
  | .returnStmt _ node | .exprStmt _ node | .prefixOp _ _ node => node :: node.inner
  | .cond _ condition consequence alternative =>
    (condition :: condition.inner) ++ (consequence :: consequence.inner) ++
      alternativeNested alternative
  | .fn _ nodes node | .call _ node nodes => (node :: node.inner) ++ nodesNested nodes
  | .hash _ pairs => pairsNested pairs
  | .ident .. | .int .. | .str .. | .bool .. | .bare .. | .foreign _ => []

def alternativeNested : Option Node → List Node
  | none => []
  | some node => node :: node.inner

def nodesNested : List Node → List Node
  | [] => []
  | node :: others => (node :: node.inner) ++ nodesNested others

def pairsNested : List (Node × Node) → List Node
  | [] => []
  | (key, value) :: others =>
    (key :: key.inner) ++ (value :: value.inner) ++ pairsNested others

end

namespace Node

/-- The nodes of a tree, its root first. -/
def nested (node : Node) : List Node := node :: node.inner

def literal? : Node → Option Int
  | .int _ value => some value
  | _ => none

/-- The integer literals of a tree. -/
def literals (node : Node) : List Int := node.nested.flatMap fun inner ↦ inner.literal?.toList

/-- The names that a node has apart from its children: its own one if it is an identifier, and those
that it binds. -/
def ownNames : Node → List String
  | .ident _ name => [name]
  | .letStmt _ target _ => target.boundName?.toList
  | .fn _ params _ => params.filterMap boundName?
  | _ => []

/-- The names that occur in a tree as identifiers or as what let statements and parameters bind. -/
def names (node : Node) : List String := node.nested.flatMap ownNames

theorem nodesNested_eq (nodes : List Node) : nodesNested nodes = nodes.flatMap nested := by
  induction nodes with
  | nil => rfl
  | cons node others ih => rw [nodesNested, ih, List.flatMap_cons, nested]

theorem pairsNested_eq (pairs : List (Node × Node)) :
    pairsNested pairs = (pairs.flatMap fun pair ↦ [pair.1, pair.2]).flatMap nested := by
  induction pairs with
  | nil => rfl
  | cons pair others ih =>
    obtain ⟨key, value⟩ := pair
    rw [pairsNested, ih]
    simp [nested]

theorem inner_eq (node : Node) : node.inner = node.children.flatMap nested := by
  cases node with
  | cond token condition consequence alternative =>
    cases alternative <;> simp [inner, children, nested, alternativeNested]
  | _ => simp [inner, children, nested, nodesNested_eq, pairsNested_eq]

theorem mem_nested {node inner : Node} :
    inner ∈ node.nested ↔ inner = node ∨ ∃ child ∈ node.children, inner ∈ child.nested := by
  rw [nested, inner_eq, List.mem_cons, List.mem_flatMap]

theorem mem_flatMap_nested {α : Type} {own : Node → List α} {node : Node} {a : α} :
    a ∈ node.nested.flatMap own ↔
      a ∈ own node ∨ ∃ child ∈ node.children, a ∈ child.nested.flatMap own := by
  simp only [List.mem_flatMap]
  rw [exists_congr fun _ ↦ and_congr_left fun _ ↦ mem_nested]
  constructor
  · rintro ⟨inner, rfl | ⟨child, hchild, hinner⟩, ha⟩
    · exact .inl ha
    · exact .inr ⟨child, hchild, inner, hinner, ha⟩
  · rintro (ha | ⟨child, hchild, inner, hinner, ha⟩)
    · exact ⟨node, .inl rfl, ha⟩
    · exact ⟨inner, .inr ⟨child, hchild, hinner⟩, ha⟩

/-- What stands in a tree that can be read can be read, each node in its place. -/
theorem Readable.child {place : Place} {node child : Node} (h : node.Readable place)
    (hm : child ∈ node.children) : ∃ place', child.Readable place' := by
  induction h with
  | program h | block h => exact ⟨_, h child hm⟩
  | letStmt ht hv =>
    rcases List.mem_pair.mp hm with rfl | rfl
    · exact ⟨_, ht⟩
    · exact ⟨_, hv⟩
  | returnStmt h | exprStmt h | prefixOp _ h => exact ⟨_, List.mem_singleton.mp hm ▸ h⟩
  | infixOp _ ha hb | index ha hb =>
    rcases List.mem_pair.mp hm with rfl | rfl
    · exact ⟨_, ha⟩
    · exact ⟨_, hb⟩
  | cond hc hb =>
    rcases List.mem_pair.mp hm with rfl | rfl
    · exact ⟨_, hc⟩
    · exact ⟨_, hb⟩
  | condElse hc hb ha =>
    simp only [children, Option.toList_some, List.mem_cons, List.not_mem_nil, or_false] at hm
    rcases hm with rfl | rfl | rfl
    · exact ⟨_, hc⟩
    · exact ⟨_, hb⟩
    · exact ⟨_, ha⟩
  | fn hp hb =>
    rcases List.mem_cons.mp hm with rfl | hm
    · exact ⟨_, hb⟩
    · exact ⟨_, hp child hm⟩
  | call hc ha =>
    rcases List.mem_cons.mp hm with rfl | hm
    · exact ⟨_, hc⟩
    · exact ⟨_, ha child hm⟩
  | array h => exact ⟨_, h child hm⟩
  | hash hk hv =>
    obtain ⟨pair, hp, hm⟩ := List.mem_flatMap.mp hm
    rcases List.mem_pair.mp hm with rfl | rfl
    · exact ⟨_, hk pair hp⟩
    · exact ⟨_, hv pair hp⟩
  | ident _ ih => exact ih hm
  | name | int | str | bool => exact absurd hm List.not_mem_nil

theorem Readable.literal {place : Place} {node : Node} {n : Int} (h : node.Readable place)
    (hn : node.literal? = some n) : 0 ≤ n ∧ n ≤ Reader.maxInteger := by
  induction h with
  | int hlower hupper =>
    obtain rfl := Option.some.inj hn
    exact ⟨hlower, hupper⟩
  | ident _ ih => exact ih hn
  | _ => cases hn

theorem Readable.of_nested {place : Place} {node inner : Node} (h : node.Readable place)
    (hm : inner ∈ node.nested) : ∃ place', inner.Readable place' := by
  induction node using Node.induction_children generalizing place with
  | h node ih =>
    rcases mem_nested.mp hm with rfl | ⟨child, hchild, hm⟩
    · exact ⟨place, h⟩
    · obtain ⟨place', hread⟩ := h.child hchild
      exact ih child hchild hread hm

theorem Readable.literals {place : Place} {node : Node} (h : node.Readable place) :
    ∀ n ∈ node.literals, 0 ≤ n ∧ n ≤ Reader.maxInteger := by
  intro n hn
  obtain ⟨inner, hm, hn⟩ := List.mem_flatMap.mp hn
  obtain ⟨place', hread⟩ := h.of_nested hm
  exact hread.literal (Option.mem_toList.mp hn)

/-- Whatever its place is, a function literal that can be read is an expression. -/
theorem Readable.of_fn {place : Place} {token : Token} {params : List Node} {body : Node}
    (h : (Node.fn token params body).Readable place) :
    (Node.fn token params body).Readable .expression := by
  cases h with
  | fn hparams hbody => exact .fn hparams hbody
  | ident h => cases h

end Node

end MonkeyLang
