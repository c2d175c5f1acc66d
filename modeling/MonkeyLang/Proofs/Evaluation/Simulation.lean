import MonkeyLang.Evaluation
import MonkeyLang.Proofs.Run.Simulates

/-!
Evaluation goes the same way from machines that are alike, for trees that are alike: it cannot tell
apart what two runs may differ in.
-/

namespace MonkeyLang

open Run

namespace Evaluation

variable {L : Likeness} {registry registry' : Registry} {env env' : Address}

/-- Lists that are alike in the sense of `r`, or faults that are. -/
def SameList {α : Type} (L : Likeness) (r : α → α → Prop) : Except Value α → Except Value α → Prop
  | .ok a, .ok a' => r a a'
  | .error value, .error value' => value.Like L value'
  | _, _ => False

/-- The registries agree on the names that are visible. -/
def SameVisible (L : Likeness) (registry registry' : Registry) : Prop :=
  ∀ name, L.visible name = true → registry.find? name = registry'.find? name

theorem simulates_lookup (hregistry : SameVisible L registry registry')
    (henv : L.addresses env env') {name : String} (hname : L.visible name = true) :
    Simulates L (Value.Like L) (lookup registry env name) (lookup registry' env' name) := by
  refine simulates_bind (simulates_lookup? hname henv) fun found found' hfound ↦ ?_
  cases hfound with
  | some hvalue => exact simulates_pure hvalue
  | none =>
    dsimp only
    rw [hregistry name hname]
    split
    · exact simulates_pure .builtin
    · exact simulates_pure .error

theorem simulates_bindTo (henv : L.addresses env env') {target target' : Node}
    (htarget : target.Like L target') (hshows : L.Shows target) {value value' : Value}
    (hvalue : value.Like L value') :
    Simulates L (fun _ _ ↦ True) (bindTo env target value) (bindTo env' target' value') := by
  cases htarget with
  | ident | str => exact simulates_bindName (hshows _ rfl) henv hvalue
  | int | bool => exact simulates_pure trivial
  | _ => exact simulates_throw _

/-- What is evaluated first ends evaluation if it is a fault, on both sides. -/
theorem simulates_operand {β : Type} {s : β → β → Prop} {exit : Value → β} {run run' : Run Value}
    {k k' : Value → Run β} (h : Simulates L (Value.Like L) run run')
    (hexit : ∀ {value value'}, value.Like L value' → s (exit value) (exit value'))
    (hk : ∀ value value', value.Like L value' → Simulates L s (k value) (k' value')) :
    Simulates L s
      (run >>= fun value ↦ if value.isError = true then pure (exit value) else k value)
      (run' >>= fun value ↦ if value.isError = true then pure (exit value) else k' value) := by
  refine simulates_bind h fun value value' hvalue ↦ ?_
  rw [hvalue.isError]
  split
  · exact simulates_pure (hexit hvalue)
  · exact hk value value' hvalue

theorem simulates_getD {run run' : Run (Option Value)}
    (h : Simulates L (Option.Rel (Value.Like L)) run run') :
    Simulates L (Value.Like L) (do return (← run).getD .null) (do return (← run').getD .null) :=
  simulates_bind h fun _ _ hvalue ↦ simulates_pure (.getD hvalue)

section Tree

-- the assumptions are those of a mutual induction, of which not every part takes them
set_option linter.unusedSectionVars false

variable {apply apply' : Value → List Value → Run Value}
  (hregistry : SameVisible L registry registry')
  (happly : ∀ {callee callee' args args'}, callee.Like L callee' →
    List.Forall₂ (Value.Like L) args args' →
    Simulates L (Value.Like L) (apply callee args) (apply' callee' args'))
  (henv : L.addresses env env')

include hregistry happly henv

mutual

theorem simulates_expr : (node : Node) → {node' : Node} → node.Like L node' →
    Simulates L (Value.Like L) (expr registry apply env node) (expr registry' apply' env' node')
  | .int .., _, h | .str .., _, h | .bool .., _, h => by
    cases h
    exact simulates_pure (by constructor)
  | .ident .., _, h => by
    cases h with
    | ident _ hname => exact simulates_lookup hregistry henv hname
  | .prefixOp _ op operand, _, h => by
    cases h with
    | prefixOp _ h =>
      refine simulates_operand (simulates_expr operand h) id fun value value' hvalue ↦ ?_
      exact simulates_pure (hvalue.applyPrefix op)
  | .infixOp _ left op right, _, h => by
    cases h with
    | infixOp _ hl hr =>
      refine simulates_operand (simulates_expr left hl) id fun a a' ha ↦ ?_
      refine simulates_operand (simulates_expr right hr) id fun b b' hb ↦ ?_
      exact simulates_pure (ha.applyInfix op hb)
  | .cond _ condition consequence alternative, _, h => by
    cases h with
    | cond _ hc hb ha =>
      refine simulates_operand (simulates_expr condition hc) id fun test test' htest ↦ ?_
      rw [htest.isTruthy]
      split
      · exact simulates_getD (simulates_body consequence hb)
      · exact simulates_getD (simulates_alternativeBody alternative ha)
  | .fn _ params code, _, h => by
    cases h with
    | fn _ hs hp hb => exact simulates_create fun _ _ hid ↦ .function hid hs hp hb henv
  | .call _ callee args, _, h => by
    cases h with
    | call _ hc ha =>
      refine simulates_operand (simulates_expr callee hc) id fun f f' hf ↦ ?_
      refine simulates_bind (simulates_exprs args ha) fun result result' hresult ↦ ?_
      match result, result', hresult with
      | .ok _, .ok _, hvalues => exact happly hf hvalues
      | .error _, .error _, hfault => exact simulates_pure hfault
  | .array _ elements, _, h => by
    cases h with
    | array _ h =>
      refine simulates_bind (simulates_exprs elements h) fun result result' hresult ↦ ?_
      match result, result', hresult with
      | .ok _, .ok _, hvalues => exact simulates_newArray hvalues
      | .error _, .error _, hfault => exact simulates_pure hfault
  | .hash _ pairs, _, h => by
    cases h with
    | hash _ h =>
      refine simulates_bind (simulates_entries pairs h .nil) fun result result' hresult ↦ ?_
      match result, result', hresult with
      | .ok _, .ok _, htable => exact simulates_create fun _ _ hid ↦ .hash hid htable
      | .error _, .error _, hfault => exact simulates_pure hfault
  | .index _ collection key, _, h => by
    cases h with
    | index _ hc hk =>
      refine simulates_operand (simulates_expr collection hc) id fun a a' ha ↦ ?_
      refine simulates_operand (simulates_expr key hk) id fun b b' hb ↦ ?_
      exact simulates_pure (ha.index hb)
  | .program _, _, h | .letStmt .., _, h | .returnStmt .., _, h | .exprStmt .., _, h
  | .block .., _, h | .bare .., _, h | .foreign _, _, h => by
    cases h
    exact simulates_throw _
termination_by structural node => node

theorem simulates_statement : (node : Node) → {node' : Node} → node.Like L node' →
    Simulates L (Option.Rel (Value.Like L)) (statement registry apply env node)
      (statement registry' apply' env' node')
  | .exprStmt _ e, _, h => by
    cases h with
    | exprStmt _ h =>
      rw [statement, statement, map_eq_pure_bind, map_eq_pure_bind]
      exact simulates_bind (simulates_expr e h) fun _ _ hvalue ↦ simulates_pure (.some hvalue)
  | .letStmt _ target e, _, h => by
    cases h with
    | letStmt _ hs ht h =>
      refine simulates_operand (simulates_expr e h) .some fun value value' hvalue ↦ ?_
      exact simulates_bind (simulates_bindTo henv ht hs hvalue) fun _ _ _ ↦ simulates_pure .none
  | .returnStmt _ e, _, h => by
    cases h with
    | returnStmt _ h =>
      refine simulates_operand (simulates_expr e h) .some fun value value' hvalue ↦ ?_
      rw [map_eq_pure_bind, map_eq_pure_bind]
      have hwrap : Simulates L (Value.Like L) (newReturned value) (newReturned value') :=
        simulates_create fun _ _ hid ↦ .returned hid hvalue
      exact simulates_bind hwrap fun _ _ hwrapped ↦ simulates_pure (.some hwrapped)
  | .block _ nodes, _, h => by
    cases h with
    | block _ h => exact simulates_statements nodes h .none
  | .program _, _, h | .ident .., _, h | .int .., _, h | .str .., _, h | .bool .., _, h
  | .prefixOp .., _, h | .infixOp .., _, h | .cond .., _, h | .fn .., _, h | .call .., _, h
  | .array .., _, h | .hash .., _, h | .index .., _, h | .bare .., _, h | .foreign _, _, h => by
    cases h
    exact simulates_throw _
termination_by structural node => node

theorem simulates_body : (node : Node) → {node' : Node} → node.Like L node' →
    Simulates L (Option.Rel (Value.Like L)) (body registry apply env node)
      (body registry' apply' env' node')
  | .block _ nodes, _, h => by
    cases h with
    | block _ h => exact simulates_statements nodes h .none
  | .program nodes, _, h => by
    cases h with
    | program h => exact simulates_statements nodes h .none
  | .exprStmt .., _, h | .letStmt .., _, h | .returnStmt .., _, h | .ident .., _, h
  | .int .., _, h | .str .., _, h | .bool .., _, h | .prefixOp .., _, h | .infixOp .., _, h
  | .cond .., _, h | .fn .., _, h | .call .., _, h | .array .., _, h | .hash .., _, h
  | .index .., _, h | .bare .., _, h | .foreign _, _, h => by
    cases h
    exact simulates_throw _
termination_by structural node => node

theorem simulates_alternativeBody : (alternative : Option Node) → {alternative' : Option Node} →
    Option.Rel (Node.Like L) alternative alternative' →
    Simulates L (Option.Rel (Value.Like L)) (alternativeBody registry apply env alternative)
      (alternativeBody registry' apply' env' alternative')
  | none, _, h => by
    cases h
    exact simulates_pure .none
  | some node, _, h => by
    cases h with
    | some h => exact simulates_body node h
termination_by structural alternative => alternative

theorem simulates_statements : (nodes : List Node) → {nodes' : List Node} →
    {last last' : Option Value} → List.Forall₂ (Node.Like L) nodes nodes' →
    Option.Rel (Value.Like L) last last' →
    Simulates L (Option.Rel (Value.Like L)) (statements registry apply env nodes last)
      (statements registry' apply' env' nodes' last')
  | [], _, _, _, h, hlast => by
    cases h
    exact simulates_pure hlast
  | node :: others, _, _, _, h, _ => by
    cases h with
    | cons h hs =>
      refine simulates_bind (simulates_statement node h) fun value value' hvalue ↦ ?_
      have hends : value.any Value.endsSequence = value'.any Value.endsSequence := by
        cases hvalue with
        | none => rfl
        | some h => exact h.endsSequence
      rw [hends]
      split
      · exact simulates_pure hvalue
      · exact simulates_statements others hs hvalue
termination_by structural nodes => nodes

theorem simulates_exprs : (nodes : List Node) → {nodes' : List Node} →
    List.Forall₂ (Node.Like L) nodes nodes' →
    Simulates L (SameList L (List.Forall₂ (Value.Like L))) (exprs registry apply env nodes)
      (exprs registry' apply' env' nodes')
  | [], _, h => by
    cases h
    exact simulates_pure .nil
  | node :: others, _, h => by
    cases h with
    | cons h hs =>
      refine simulates_operand (simulates_expr node h) id fun value value' hvalue ↦ ?_
      refine simulates_bind (simulates_exprs others hs) fun result result' hresult ↦ ?_
      match result, result', hresult with
      | .ok _, .ok _, hvalues => exact simulates_pure (.cons hvalue hvalues)
      | .error _, .error _, hfault => exact simulates_pure hfault
termination_by structural nodes => nodes

theorem simulates_entries : (pairs : List (Node × Node)) → {pairs' : List (Node × Node)} →
    {table table' : List (HashKey × Value × Value)} →
    List.Forall₂ (Prod.RProd (Node.Like L) (Node.Like L)) pairs pairs' →
    OrderedMap.Like (Prod.RProd (Value.Like L) (Value.Like L)) table table' →
    Simulates L (SameList L (OrderedMap.Like (Prod.RProd (Value.Like L) (Value.Like L))))
      (entries registry apply env pairs table) (entries registry' apply' env' pairs' table')
  | [], _, _, _, h, htable => by
    cases h
    exact simulates_pure htable
  | (keyNode, valueNode) :: others, _, _, _, h, htable => by
    cases h with
    | cons h hs =>
      obtain ⟨hk, hv⟩ := h
      refine simulates_operand (simulates_expr keyNode hk) id fun key key' hkey ↦ ?_
      rw [hkey.hashKey?, hkey.type]
      split
      · exact simulates_pure .error
      · refine simulates_operand (simulates_expr valueNode hv) id fun value value' hvalue ↦ ?_
        exact simulates_entries others hs (htable.insert _ (.intro hkey hvalue))
termination_by structural pairs => pairs

end

end Tree

theorem simulates_bindAll (henv : L.addresses env env') {params params' : List Node}
    (hparams : List.Forall₂ (Node.Like L) params params')
    (hshows : ∀ param ∈ params, L.Shows param) {args args' : List Value}
    (hargs : List.Forall₂ (Value.Like L) args args') :
    Simulates L (fun _ _ ↦ True) (bindAll env params args) (bindAll env' params' args') := by
  induction hparams generalizing args args' with
  | nil => exact simulates_pure trivial
  | cons hparam _ ih =>
    obtain ⟨hshow, hothers⟩ := List.forall_mem_cons.mp hshows
    cases hargs with
    | nil => exact simulates_pure trivial
    | cons hvalue hargs =>
      exact simulates_bind (simulates_bindTo henv hparam hshow hvalue) fun _ _ _ ↦ ih hothers hargs

theorem simulates_applyWith {enter enter' : Address → Node → Run (Option Value)}
    (h : ∀ {env env' code code'}, L.addresses env env' → code.Like L code' →
      Simulates L (Option.Rel (Value.Like L)) (enter env code) (enter' env' code'))
    {callee callee' : Value} {args args' : List Value} (hcallee : callee.Like L callee')
    (hargs : List.Forall₂ (Value.Like L) args args') :
    Simulates L (Value.Like L) (applyWith enter callee args) (applyWith enter' callee' args') := by
  cases hcallee with
  | function _ hshows hparams hcode hscope =>
    rw [applyWith, applyWith, hparams.length_eq, hargs.length_eq]
    split
    · exact simulates_pure .error
    · refine simulates_bind (simulates_record _ _) fun _ _ _ ↦ ?_
      refine simulates_bind (simulates_enclose hscope) fun env env' henv ↦ ?_
      refine simulates_bind (simulates_bindAll henv hparams hshows hargs) fun _ _ _ ↦ ?_
      refine simulates_bind (h henv hcode) fun value value' hvalue ↦ ?_
      exact simulates_pure (Value.Like.getD hvalue).unwrap
  | builtin =>
    exact simulates_bind (simulates_record _ _) fun _ _ _ ↦ simulates_builtin _ hargs
  | _ => exact simulates_pure .error

theorem simulates_apply (hregistry : SameVisible L registry registry') (depth : Nat)
    {callee callee' : Value} {args args' : List Value} (hcallee : callee.Like L callee')
    (hargs : List.Forall₂ (Value.Like L) args args') :
    Simulates L (Value.Like L) (apply registry depth callee args)
      (apply registry' depth callee' args') := by
  induction depth generalizing callee callee' args args' with
  | zero => exact simulates_applyWith (fun _ _ ↦ simulates_throw _) hcallee hargs
  | succ depth ih =>
    refine simulates_applyWith (fun henv hcode ↦ ?_) hcallee hargs
    exact simulates_body hregistry ih henv _ hcode

theorem simulates_program (hregistry : SameVisible L registry registry') (depth : Nat)
    (henv : L.addresses env env') {nodes nodes' : List Node}
    (h : List.Forall₂ (Node.Like L) nodes nodes') :
    Simulates L (Option.Rel (Value.Like L))
      ((Node.program nodes).evaluate registry depth env)
      ((Node.program nodes').evaluate registry' depth env') := by
  refine simulates_bind (simulates_record _ _) fun _ _ _ ↦ ?_
  refine simulates_bind (simulates_statements hregistry (simulates_apply hregistry depth) henv
    nodes h .none) fun value value' hvalue ↦ simulates_pure ?_
  cases hvalue with
  | none => exact .none
  | some hvalue => exact .some hvalue.unwrap

/-- Trees that are alike are evaluated to values that are alike. -/
theorem simulates_evaluate (hregistry : SameVisible L registry registry') (depth : Nat)
    (henv : L.addresses env env') {node node' : Node} (h : node.Like L node') :
    Simulates L (Option.Rel (Value.Like L)) (node.evaluate registry depth env)
      (node'.evaluate registry' depth env') := by
  have happly : ∀ {callee callee' args args'}, callee.Like L callee' →
      List.Forall₂ (Value.Like L) args args' → Simulates L (Value.Like L)
        (apply registry depth callee args) (apply registry' depth callee' args') :=
    simulates_apply hregistry depth
  have hstatement := simulates_statement hregistry happly henv node h
  have hexpr : Simulates L (Option.Rel (Value.Like L))
      (some <$> expr registry (apply registry depth) env node)
      (some <$> expr registry' (apply registry' depth) env' node') := by
    rw [map_eq_pure_bind, map_eq_pure_bind]
    exact simulates_bind (simulates_expr hregistry happly henv node h) fun _ _ hvalue ↦
      simulates_pure (.some hvalue)
  cases h with
  | program h => exact simulates_program hregistry depth henv h
  | letStmt | returnStmt | exprStmt | block => exact hstatement
  | @bare role token =>
    cases role with
    | plain => exact simulates_throw _
    | statement => exact hstatement
    | expression => exact hexpr
  | foreign => exact simulates_throw _
  | _ => exact hexpr

end Evaluation

end MonkeyLang
