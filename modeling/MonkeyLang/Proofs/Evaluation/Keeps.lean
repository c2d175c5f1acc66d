import MonkeyLang.Evaluation
import MonkeyLang.Proofs.Run

/-!
A relation that the primitive steps of evaluation keep is kept by evaluation as a whole. Of the
steps that bind, only those of the let statements of a node outside function literals are taken in
its environment.
-/

namespace MonkeyLang

mutual

/-- What the let statements of a node bind that lie outside function literals. -/
def Node.targets : Node → List Node
  | .program statements | .block _ statements => nodesTargets statements
  | .letStmt _ target value => target :: value.targets
  | .returnStmt _ value => value.targets
  | .exprStmt _ expr => expr.targets
  | .prefixOp _ _ operand => operand.targets
  | .infixOp _ left _ right => left.targets ++ right.targets
  | .cond _ condition consequence alternative =>
    condition.targets ++ consequence.targets ++ alternativeTargets alternative
  | .call _ callee args => callee.targets ++ nodesTargets args
  | .array _ elements => nodesTargets elements
  | .hash _ pairs => pairsTargets pairs
  | .index _ collection key => collection.targets ++ key.targets
  | .ident .. | .int .. | .str .. | .bool .. | .fn .. | .bare .. | .foreign _ => []

def alternativeTargets : Option Node → List Node
  | none => []
  | some node => node.targets

def nodesTargets : List Node → List Node
  | [] => []
  | node :: others => node.targets ++ nodesTargets others

def pairsTargets : List (Node × Node) → List Node
  | [] => []
  | (key, value) :: others => key.targets ++ value.targets ++ pairsTargets others

end

namespace Evaluation

open Run

variable {R : Machine → Machine → Prop} [IsPreorder Machine R] {registry : Registry}
  {apply : Value → List Value → Run Value} {env : Address}

theorem keeps_lookup (name : String) : Keeps R (lookup registry env name) := by
  refine keeps_bind (keeps_lookup? env name) fun found ↦ ?_
  split
  · exact keeps_pure _
  · split <;> exact keeps_pure _

section Tree

-- the steps are assumed for the whole of a mutual induction, of which not every part takes them
set_option linter.unusedSectionVars false

variable (hcreate : Keeps R freshId) (happly : ∀ callee args, Keeps R (apply callee args))

include hcreate happly

mutual

theorem keeps_expr : (node : Node) →
    (∀ target ∈ node.targets, ∀ value, Keeps R (bindTo env target value)) →
    Keeps R (expr registry apply env node)
  | .int .., _ | .str .., _ | .bool .., _ => keeps_pure _
  | .ident _ name, _ => keeps_lookup name
  | .prefixOp _ op operand, h => by
    refine keeps_bind (keeps_expr operand h) fun value ↦ ?_
    split <;> exact keeps_pure _
  | .infixOp _ left op right, h => by
    have hl := keeps_expr left fun target ht ↦ h target (List.mem_append_left _ ht)
    have hr := keeps_expr right fun target ht ↦ h target (List.mem_append_right _ ht)
    refine keeps_bind hl fun a ↦ ?_
    split
    · exact keeps_pure _
    · refine keeps_bind hr fun b ↦ ?_
      split <;> exact keeps_pure _
  | .cond _ condition consequence alternative, h => by
    simp only [Node.targets, List.forall_mem_append] at h
    obtain ⟨⟨hc, hb⟩, ha⟩ := h
    refine keeps_bind (keeps_expr condition hc) fun test ↦ ?_
    split
    · exact keeps_pure _
    · split
      · exact keeps_bind (keeps_body consequence hb) fun _ ↦ keeps_pure _
      · exact keeps_bind (keeps_alternativeBody alternative ha) fun _ ↦ keeps_pure _
  | .fn _ params code, _ => keeps_create hcreate
  | .call _ callee args, h => by
    have hc := keeps_expr callee fun target ht ↦ h target (List.mem_append_left _ ht)
    have ha := keeps_exprs args fun target ht ↦ h target (List.mem_append_right _ ht)
    refine keeps_bind hc fun function ↦ ?_
    split
    · exact keeps_pure _
    · refine keeps_bind ha fun values ↦ ?_
      split
      · exact keeps_pure _
      · exact happly _ _
  | .array _ elements, h => by
    refine keeps_bind (keeps_exprs elements h) fun values ↦ ?_
    split
    · exact keeps_pure _
    · exact keeps_create hcreate
  | .hash _ pairs, h => by
    refine keeps_bind (keeps_entries pairs [] h) fun table ↦ ?_
    split
    · exact keeps_pure _
    · exact keeps_create hcreate
  | .index _ collection key, h => by
    have hc := keeps_expr collection fun target ht ↦ h target (List.mem_append_left _ ht)
    have hk := keeps_expr key fun target ht ↦ h target (List.mem_append_right _ ht)
    refine keeps_bind hc fun a ↦ ?_
    split
    · exact keeps_pure _
    · refine keeps_bind hk fun b ↦ ?_
      split <;> exact keeps_pure _
  | .program _, _ | .letStmt .., _ | .returnStmt .., _ | .exprStmt .., _ | .block .., _
  | .bare .., _ | .foreign _, _ => keeps_throw _

theorem keeps_statement : (node : Node) →
    (∀ target ∈ node.targets, ∀ value, Keeps R (bindTo env target value)) →
    Keeps R (statement registry apply env node)
  | .exprStmt _ e, h => keeps_map (keeps_expr e h) _
  | .letStmt _ target e, h => by
    have he := keeps_expr e fun target ht ↦ h target (List.mem_cons_of_mem _ ht)
    refine keeps_bind he fun value ↦ ?_
    split
    · exact keeps_pure _
    · exact keeps_bind (h target (List.mem_cons_self ..) value) fun _ ↦ keeps_pure _
  | .returnStmt _ e, h => by
    refine keeps_bind (keeps_expr e h) fun value ↦ ?_
    split
    · exact keeps_pure _
    · exact keeps_map (keeps_create hcreate) _
  | .block _ nodes, h => keeps_statements nodes none h
  | .program _, _ | .ident .., _ | .int .., _ | .str .., _ | .bool .., _ | .prefixOp .., _
  | .infixOp .., _ | .cond .., _ | .fn .., _ | .call .., _ | .array .., _ | .hash .., _
  | .index .., _ | .bare .., _ | .foreign _, _ => keeps_throw _

theorem keeps_body : (node : Node) →
    (∀ target ∈ node.targets, ∀ value, Keeps R (bindTo env target value)) →
    Keeps R (body registry apply env node)
  | .block _ nodes, h | .program nodes, h => keeps_statements nodes none h
  | .exprStmt .., _ | .letStmt .., _ | .returnStmt .., _ | .ident .., _ | .int .., _ | .str .., _
  | .bool .., _ | .prefixOp .., _ | .infixOp .., _ | .cond .., _ | .fn .., _ | .call .., _
  | .array .., _ | .hash .., _ | .index .., _ | .bare .., _ | .foreign _, _ => keeps_throw _

theorem keeps_alternativeBody : (alternative : Option Node) →
    (∀ target ∈ alternativeTargets alternative, ∀ value, Keeps R (bindTo env target value)) →
    Keeps R (alternativeBody registry apply env alternative)
  | none, _ => keeps_pure none
  | some node, h => keeps_body node h

theorem keeps_statements : (nodes : List Node) → (last : Option Value) →
    (∀ target ∈ nodesTargets nodes, ∀ value, Keeps R (bindTo env target value)) →
    Keeps R (statements registry apply env nodes last)
  | [], last, _ => keeps_pure last
  | node :: others, _, h => by
    have hn := keeps_statement node fun target ht ↦ h target (List.mem_append_left _ ht)
    refine keeps_bind hn fun value ↦ ?_
    split
    · exact keeps_pure _
    · exact keeps_statements others value fun target ht ↦ h target (List.mem_append_right _ ht)

theorem keeps_exprs : (nodes : List Node) →
    (∀ target ∈ nodesTargets nodes, ∀ value, Keeps R (bindTo env target value)) →
    Keeps R (exprs registry apply env nodes)
  | [], _ => keeps_pure _
  | node :: others, h => by
    have hn := keeps_expr node fun target ht ↦ h target (List.mem_append_left _ ht)
    have ho := keeps_exprs others fun target ht ↦ h target (List.mem_append_right _ ht)
    refine keeps_bind hn fun value ↦ ?_
    split
    · exact keeps_pure _
    · refine keeps_bind ho fun values ↦ ?_
      split <;> exact keeps_pure _

theorem keeps_entries : (pairs : List (Node × Node)) →
    (table : List (HashKey × Value × Value)) →
    (∀ target ∈ pairsTargets pairs, ∀ value, Keeps R (bindTo env target value)) →
    Keeps R (entries registry apply env pairs table)
  | [], _, _ => keeps_pure _
  | (keyNode, valueNode) :: others, table, h => by
    simp only [pairsTargets, List.forall_mem_append] at h
    obtain ⟨⟨hk, hv⟩, ho⟩ := h
    refine keeps_bind (keeps_expr keyNode hk) fun key ↦ ?_
    split
    · exact keeps_pure _
    · split
      · exact keeps_pure _
      · refine keeps_bind (keeps_expr valueNode hv) fun value ↦ ?_
        split
        · exact keeps_pure _
        · exact keeps_entries others _ ho

end

theorem keeps_root (hrecord : ∀ entry, Keeps R (record entry)) {node : Node}
    (h : ∀ target ∈ node.targets, ∀ value, Keeps R (bindTo env target value)) :
    Keeps R (root registry apply env node) := by
  unfold root
  split
  · refine keeps_bind (hrecord _) fun _ ↦ ?_
    exact keeps_bind (keeps_statements hcreate happly _ none h) fun _ ↦ keeps_pure _
  · exact keeps_statement hcreate happly _ h
  · exact keeps_map (keeps_expr hcreate happly _ h) _
  · exact keeps_throw _

end Tree

section Calls

variable {enter : Address → Node → Run (Option Value)}
  (hrecord : ∀ entry, Keeps R (record entry)) (hwrite : ∀ text, Keeps R (write text))
  (hcreate : Keeps R freshId) (henclose : ∀ scope, Keeps R (enclose scope))
  (hbind : ∀ env name value, Keeps R (bindName env name value))

include hbind in
theorem keeps_bindTo (env : Address) (target : Node) (value : Value) :
    Keeps R (bindTo env target value) := by
  unfold bindTo
  split
  · exact hbind _ _ _
  · exact hbind _ _ _
  · exact keeps_pure _
  · exact keeps_pure _
  · exact keeps_throw _

include hbind in
theorem keeps_bindAll (env : Address) (params : List Node) (args : List Value) :
    Keeps R (bindAll env params args) := by
  induction params generalizing args with
  | nil => exact keeps_pure _
  | cons param params ih =>
    cases args with
    | nil => exact keeps_pure _
    | cons value args => exact keeps_bind (keeps_bindTo hbind env param value) fun _ ↦ ih args

include hrecord hwrite hcreate henclose hbind

theorem keeps_applyWith (henter : ∀ env code, Keeps R (enter env code)) (callee : Value)
    (args : List Value) : Keeps R (applyWith enter callee args) := by
  unfold applyWith
  split
  · split
    · exact keeps_pure _
    · refine keeps_bind (hrecord _) fun _ ↦ keeps_bind (henclose _) fun env ↦ ?_
      refine keeps_bind (keeps_bindAll hbind env _ args) fun _ ↦ ?_
      exact keeps_bind (henter _ _) fun _ ↦ keeps_pure _
  · exact keeps_bind (hrecord _) fun _ ↦ keeps_builtin hwrite hcreate _ args
  · exact keeps_pure _

/-- What all steps keep is kept by calls. -/
theorem keeps_apply (registry : Registry) (depth : Nat) (callee : Value) (args : List Value) :
    Keeps R (Evaluation.apply registry depth callee args) := by
  induction depth generalizing callee args with
  | zero =>
    refine keeps_applyWith hrecord hwrite hcreate henclose hbind (fun _ _ ↦ ?_) callee args
    exact keeps_throw _
  | succ depth ih =>
    refine keeps_applyWith hrecord hwrite hcreate henclose hbind (fun env code ↦ ?_) callee args
    exact keeps_body hcreate ih code fun target _ value ↦ keeps_bindTo hbind env target value

end Calls

end Evaluation

end MonkeyLang
