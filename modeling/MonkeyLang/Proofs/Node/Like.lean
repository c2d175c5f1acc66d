import MonkeyLang.Proofs.Node.Nested
import Mathlib.Data.List.Forall2
import Mathlib.Data.Option.Basic

/-!
Trees that differ at most in the tokens they store.
-/

namespace MonkeyLang

theorem forall₂_imp_of_mem {α : Type} {r r' : α → α → Prop} {as bs : List α}
    (h : List.Forall₂ r as bs) (himp : ∀ a ∈ as, ∀ {b}, r a b → r' a b) :
    List.Forall₂ r' as bs := by
  induction h with
  | nil => exact .nil
  | cons h _ ih =>
    obtain ⟨hfirst, hothers⟩ := List.forall_mem_cons.mp himp
    exact .cons (hfirst h) (ih hothers)

/-- In what two runs may differ: in the numbers of creation and the addresses, which correspond to
one another one to one, in the text written before, in the tokens of trees, and in what is bound to
names that are not visible. -/
structure Likeness where
  ids : Nat → Nat → Prop
  addresses : Address → Address → Prop
  texts : String → String → Prop
  tokens : Token → Token → Prop
  visible : String → Bool
  ids_iff {i i' j j' : Nat} : ids i i' → ids j j' → (i = j ↔ i' = j')
  addresses_iff {a a' b b' : Address} : addresses a a' → addresses b b' → (a = b ↔ a' = b')
  texts_append {before before' : String} (text : String) :
    texts before before' → texts (before ++ text) (before' ++ text)

/-- All things are like themselves. -/
structure Likeness.Reflexive (L : Likeness) : Prop where
  ids (i : Nat) : L.ids i i
  addresses (a : Address) : L.addresses a a
  texts (text : String) : L.texts text text
  tokens (token : Token) : L.tokens token token
  visible (name : String) : L.visible name = true

/-- Only equal numbers, addresses and tokens correspond. -/
structure Likeness.Literal (L : Likeness) : Prop where
  ids {i i' : Nat} : L.ids i i' → i = i'
  addresses {a a' : Address} : L.addresses a a' → a = a'
  tokens {token token' : Token} : L.tokens token token' → token = token'

/-- Only equal things are alike. -/
structure Likeness.Exact (L : Likeness) : Prop extends L.Literal where
  texts {text text' : String} : L.texts text text' → text = text'
  visible (name : String) : L.visible name = true

/-- Nothing may differ but tokens. -/
def Likeness.upTo (tokens : Token → Token → Prop) : Likeness where
  ids := Eq
  addresses := Eq
  texts := Eq
  tokens := tokens
  visible _ := true
  ids_iff := Eq.congr
  addresses_iff := Eq.congr
  texts_append text h := congrArg (· ++ text) h

theorem Likeness.upTo_reflexive {tokens : Token → Token → Prop}
    (h : ∀ token, tokens token token) : (upTo tokens).Reflexive :=
  ⟨fun _ ↦ rfl, fun _ ↦ rfl, fun _ ↦ rfl, h, fun _ ↦ rfl⟩

/-- What is bound to a node is bound to a visible name. -/
def Likeness.Shows (L : Likeness) (target : Node) : Prop :=
  ∀ name ∈ target.boundName?, L.visible name = true

/-- The trees have the same form and mention visible names only, and their tokens are alike. -/
inductive Node.Like (L : Likeness) : Node → Node → Prop
  | program {nodes nodes' : List Node} :
      List.Forall₂ (Like L) nodes nodes' → Like L (.program nodes) (.program nodes')
  | letStmt {token token' : Token} {target target' value value' : Node} :
      L.tokens token token' → L.Shows target → Like L target target' → Like L value value' →
      Like L (.letStmt token target value) (.letStmt token' target' value')
  | returnStmt {token token' : Token} {value value' : Node} :
      L.tokens token token' → Like L value value' →
      Like L (.returnStmt token value) (.returnStmt token' value')
  | exprStmt {token token' : Token} {expr expr' : Node} :
      L.tokens token token' → Like L expr expr' →
      Like L (.exprStmt token expr) (.exprStmt token' expr')
  | block {brace brace' : Token} {nodes nodes' : List Node} :
      L.tokens brace brace' → List.Forall₂ (Like L) nodes nodes' →
      Like L (.block brace nodes) (.block brace' nodes')
  | ident {token token' : Token} {name : String} :
      L.tokens token token' → L.visible name = true →
      Like L (.ident token name) (.ident token' name)
  | int {token token' : Token} {value : Int} :
      L.tokens token token' → Like L (.int token value) (.int token' value)
  | str {token token' : Token} {value : String} :
      L.tokens token token' → Like L (.str token value) (.str token' value)
  | bool {token token' : Token} {value : Bool} :
      L.tokens token token' → Like L (.bool token value) (.bool token' value)
  | prefixOp {token token' : Token} {op : String} {operand operand' : Node} :
      L.tokens token token' → Like L operand operand' →
      Like L (.prefixOp token op operand) (.prefixOp token' op operand')
  | infixOp {token token' : Token} {op : String} {left left' right right' : Node} :
      L.tokens token token' → Like L left left' → Like L right right' →
      Like L (.infixOp token left op right) (.infixOp token' left' op right')
  | cond {token token' : Token} {condition condition' consequence consequence' : Node}
      {alternative alternative' : Option Node} :
      L.tokens token token' → Like L condition condition' → Like L consequence consequence' →
      Option.Rel (Like L) alternative alternative' →
      Like L (.cond token condition consequence alternative)
        (.cond token' condition' consequence' alternative')
  | fn {token token' : Token} {params params' : List Node} {body body' : Node} :
      L.tokens token token' → (∀ param ∈ params, L.Shows param) →
      List.Forall₂ (Like L) params params' → Like L body body' →
      Like L (.fn token params body) (.fn token' params' body')
  | call {token token' : Token} {callee callee' : Node} {args args' : List Node} :
      L.tokens token token' → Like L callee callee' → List.Forall₂ (Like L) args args' →
      Like L (.call token callee args) (.call token' callee' args')
  | array {token token' : Token} {elements elements' : List Node} :
      L.tokens token token' → List.Forall₂ (Like L) elements elements' →
      Like L (.array token elements) (.array token' elements')
  | hash {token token' : Token} {pairs pairs' : List (Node × Node)} :
      L.tokens token token' → List.Forall₂ (Prod.RProd (Like L) (Like L)) pairs pairs' →
      Like L (.hash token pairs) (.hash token' pairs')
  | index {token token' : Token} {collection collection' key key' : Node} :
      L.tokens token token' → Like L collection collection' → Like L key key' →
      Like L (.index token collection key) (.index token' collection' key')
  | bare {role : Role} {token : Token} : Like L (.bare role token) (.bare role token)
  | foreign {typeName : String} : Like L (.foreign typeName) (.foreign typeName)

namespace Node.Like

variable {L : Likeness} {node node' : Node}

theorem formName (h : node.Like L node') : node.formName = node'.formName := by
  cases h <;> rfl

theorem isExprStmt (h : node.Like L node') : node.isExprStmt = node'.isExprStmt := by
  cases h <;> rfl

theorem statements {nodes nodes' : List Node} (h : (Node.program nodes).Like L (.program nodes')) :
    List.Forall₂ (Like L) nodes nodes' := by
  cases h with
  | program h => exact h

theorem enclosed (h : node.Like L node') (text : String) :
    node.enclosed text = node'.enclosed text := by
  have hany : node.statements?.any List.isEmpty = node'.statements?.any List.isEmpty := by
    cases h with
    | program h | block _ h => cases h <;> rfl
    | _ => rfl
  rw [Node.enclosed, Node.enclosed, hany]

theorem statementsText_eq {nodes nodes' : List Node} (h : List.Forall₂ (Like L) nodes nodes')
    (ih : ∀ node ∈ nodes, ∀ {node'}, node.Like L node' → node.text = node'.text) :
    statementsText nodes = statementsText nodes' := by
  induction h with
  | nil => rfl
  | cons h hs ihs =>
    obtain ⟨hnode, hothers⟩ := List.forall_mem_cons.mp ih
    have hempty : ∀ {nodes nodes' : List Node}, List.Forall₂ (Like L) nodes nodes' →
        nodes.isEmpty = nodes'.isEmpty := by
      intro nodes nodes' h
      cases h <;> rfl
    rw [statementsText, statementsText, hnode h, h.isExprStmt, hempty hs, ihs hothers]

theorem nodeTexts_eq {nodes nodes' : List Node} (h : List.Forall₂ (Like L) nodes nodes')
    (ih : ∀ node ∈ nodes, ∀ {node'}, node.Like L node' → node.text = node'.text) :
    nodeTexts nodes = nodeTexts nodes' := by
  rw [nodeTexts_eq_map, nodeTexts_eq_map, map_eq_map_iff_forall₂]
  exact forall₂_imp_of_mem h ih

theorem pairTexts_eq {pairs pairs' : List (Node × Node)}
    (h : List.Forall₂ (Prod.RProd (Like L) (Like L)) pairs pairs')
    (ih : ∀ node ∈ pairs.flatMap fun pair ↦ [pair.1, pair.2], ∀ {node'}, node.Like L node' →
      node.text = node'.text) : pairTexts pairs = pairTexts pairs' := by
  induction h with
  | nil => rfl
  | cons h _ ihs =>
    cases h with
    | intro hk hv =>
      rw [List.flatMap_cons, List.forall_mem_append] at ih
      obtain ⟨hpair, hothers⟩ := ih
      rw [pairTexts, pairTexts, hpair _ (by simp) hk, hpair _ (by simp) hv, ihs hothers]

/-- Trees that are alike have the same canonical text. -/
theorem text_eq (h : node.Like L node') : node.text = node'.text := by
  induction node using Node.induction_children generalizing node' with
  | h node ih =>
    cases h with
    | program h | block _ h => exact statementsText_eq h ih
    | letStmt _ _ ht hv => simp only [Node.text, ih _ (by simp [children]) ht,
        ih _ (by simp [children]) hv]
    | returnStmt _ h | exprStmt _ h | prefixOp _ h =>
      simp only [Node.text, ih _ (List.mem_cons_self ..) h]
    | infixOp _ ha hb | index _ ha hb =>
      simp only [Node.text, ih _ (by simp [children]) ha, ih _ (by simp [children]) hb]
    | cond _ hc hb ha =>
      have hcondition := ih _ (by simp [children]) hc
      have hconsequence := ih _ (by simp [children]) hb
      cases ha with
      | none => simp only [Node.text, hcondition, hconsequence, hb.enclosed]
      | some ha =>
        have halternative := ih _ (by simp [children]) ha
        simp only [Node.text, alternativeText, hcondition, hconsequence, halternative, hb.enclosed,
          ha.enclosed]
    | fn _ _ hp hb =>
      obtain ⟨hbody, hparams⟩ := List.forall_mem_cons.mp ih
      simp only [Node.text, nodeTexts_eq hp hparams, hbody hb, hb.enclosed]
    | call _ hc ha =>
      obtain ⟨hcallee, hargs⟩ := List.forall_mem_cons.mp ih
      simp only [Node.text, hcallee hc, nodeTexts_eq ha hargs]
    | array _ h => simp only [Node.text, nodeTexts_eq h ih]
    | hash _ h => simp only [Node.text, pairTexts_eq h ih]
    | _ => rfl

theorem eq (htokens : ∀ {token token'}, L.tokens token token' → token = token')
    (h : node.Like L node') : node = node' := by
  have hsame : ∀ {nodes nodes' : List Node}, List.Forall₂ (Like L) nodes nodes' →
      (∀ node ∈ nodes, ∀ {node'}, node.Like L node' → node = node') → nodes = nodes' := by
    intro nodes nodes' h ih
    have heq : List.Forall₂ (· = ·) nodes nodes' := forall₂_imp_of_mem h ih
    rwa [List.forall₂_eq_eq_eq] at heq
  induction node using Node.induction_children generalizing node' with
  | h node ih =>
    cases h with
    | program h => rw [hsame h ih]
    | letStmt ht _ ha hb =>
      rw [htokens ht, ih _ (by simp [children]) ha, ih _ (by simp [children]) hb]
    | returnStmt ht h | exprStmt ht h | prefixOp ht h =>
      rw [htokens ht, ih _ (List.mem_cons_self ..) h]
    | block ht h | array ht h => rw [htokens ht, hsame h ih]
    | ident ht | int ht | str ht | bool ht => rw [htokens ht]
    | infixOp ht ha hb | index ht ha hb =>
      rw [htokens ht, ih _ (by simp [children]) ha, ih _ (by simp [children]) hb]
    | cond ht hc hb ha =>
      rw [htokens ht, ih _ (by simp [children]) hc, ih _ (by simp [children]) hb]
      cases ha with
      | none => rfl
      | some ha => rw [ih _ (by simp [children]) ha]
    | fn ht _ hp hb =>
      obtain ⟨hbody, hparams⟩ := List.forall_mem_cons.mp ih
      rw [htokens ht, hsame hp hparams, hbody hb]
    | call ht hc ha =>
      obtain ⟨hcallee, hargs⟩ := List.forall_mem_cons.mp ih
      rw [htokens ht, hcallee hc, hsame ha hargs]
    | @hash _ _ pairs pairs' ht h =>
      have hpairs : List.Forall₂ (· = ·) pairs pairs' := by
        refine forall₂_imp_of_mem h fun pair hp pair' hlike ↦ ?_
        have heq : ∀ node ∈ [pair.1, pair.2], ∀ {node'}, node.Like L node' → node = node' :=
          fun node hn ↦ ih node (List.mem_flatMap.mpr ⟨pair, hp, hn⟩)
        cases hlike with
        | intro hk hv => rw [heq _ (by simp) hk, heq _ (by simp) hv]
      rw [List.forall₂_eq_eq_eq] at hpairs
      rw [htokens ht, hpairs]
    | bare | foreign => rfl

/-- A tree is like itself if all names that occur in it are visible. -/
theorem of_names (htokens : ∀ token, L.tokens token token) {node : Node}
    (h : ∀ name ∈ node.names, L.visible name = true) : node.Like L node := by
  have hsame : ∀ {nodes : List Node}, (∀ node ∈ nodes, node.Like L node) →
      List.Forall₂ (Like L) nodes nodes := List.forall₂_same.mpr
  induction node using Node.induction_children with
  | h node ih =>
    replace ih : ∀ child ∈ node.children, child.Like L child := fun child hchild ↦
      ih child hchild fun name hname ↦ h name (mem_flatMap_nested.mpr (.inr ⟨child, hchild, hname⟩))
    replace h : ∀ name ∈ node.ownNames, L.visible name = true :=
      fun name hname ↦ h name (mem_flatMap_nested.mpr (.inl hname))
    cases node with
    | program => exact .program (hsame ih)
    | letStmt =>
      have htarget := ih _ (List.mem_cons_self ..)
      refine .letStmt (htokens _) (fun name hname ↦ ?_) htarget (ih _ (by simp [children]))
      exact h name (Option.mem_toList.mpr hname)
    | returnStmt => exact .returnStmt (htokens _) (ih _ (by simp [children]))
    | exprStmt => exact .exprStmt (htokens _) (ih _ (by simp [children]))
    | block => exact .block (htokens _) (hsame ih)
    | ident => exact .ident (htokens _) (h _ (List.mem_singleton.mpr rfl))
    | int => exact .int (htokens _)
    | str => exact .str (htokens _)
    | bool => exact .bool (htokens _)
    | prefixOp => exact .prefixOp (htokens _) (ih _ (by simp [children]))
    | infixOp =>
      have hleft := ih _ (List.mem_cons_self ..)
      exact .infixOp (htokens _) hleft (ih _ (by simp [children]))
    | cond token condition consequence alternative =>
      refine .cond (htokens _) (ih _ (by simp [children])) (ih _ (by simp [children])) ?_
      cases alternative with
      | none => exact .none
      | some alternative => exact .some (ih _ (by simp [children]))
    | fn =>
      obtain ⟨hbody, hparams⟩ := List.forall_mem_cons.mp ih
      refine .fn (htokens _) (fun param hparam name hname ↦ ?_) (hsame hparams) hbody
      exact h name (List.mem_filterMap.mpr ⟨param, hparam, hname⟩)
    | call =>
      obtain ⟨hcallee, hargs⟩ := List.forall_mem_cons.mp ih
      exact .call (htokens _) hcallee (hsame hargs)
    | array => exact .array (htokens _) (hsame ih)
    | hash token pairs =>
      refine .hash (htokens _) (List.forall₂_same.mpr fun pair hp ↦ ?_)
      have hpair : ∀ node ∈ [pair.1, pair.2], node.Like L node :=
        fun node hn ↦ ih node (List.mem_flatMap.mpr ⟨pair, hp, hn⟩)
      exact .intro (hpair _ (by simp)) (hpair _ (by simp))
    | index => exact .index (htokens _) (ih _ (by simp [children])) (ih _ (by simp [children]))
    | bare => exact .bare
    | foreign => exact .foreign

theorem refl (hL : L.Reflexive) (node : Node) : node.Like L node :=
  of_names hL.tokens fun name _ ↦ hL.visible name

end Node.Like

/-- A tree that can be read is like every tree that differs from it in its tokens only. -/
theorem Node.Readable.like {L : Likeness} (htokens : ∀ token token', L.tokens token token')
    (hvisible : ∀ name, L.visible name = true) {place : Place} {node : Node}
    (h : node.Readable place) {node' : Node} (he : node.untoken = node'.untoken) :
    node.Like L node' := by
  have hshows : ∀ target, L.Shows target := fun _ name _ ↦ hvisible name
  have hsame : ∀ {nodes nodes' : List Node}, nodesUntoken nodes = nodesUntoken nodes' →
      (∀ node ∈ nodes, ∀ {node'}, node.untoken = node'.untoken → node.Like L node') →
      List.Forall₂ (Like L) nodes nodes' := by
    intro nodes nodes' he ih
    rw [nodesUntoken_eq_map, nodesUntoken_eq_map, map_eq_map_iff_forall₂] at he
    exact forall₂_imp_of_mem he ih
  induction h generalizing node' with
  | program _ ih =>
    cases node' <;> simp only [untoken, reduceCtorEq, program.injEq] at he
    exact .program (hsame he ih)
  | letStmt _ _ ih ih' =>
    cases node' <;> simp only [untoken, reduceCtorEq, letStmt.injEq] at he
    exact .letStmt (htokens _ _) (hshows _) (ih he.2.1) (ih' he.2.2)
  | returnStmt _ ih =>
    cases node' <;> simp only [untoken, reduceCtorEq, returnStmt.injEq] at he
    exact .returnStmt (htokens _ _) (ih he.2)
  | exprStmt _ ih =>
    cases node' <;> simp only [untoken, reduceCtorEq, exprStmt.injEq] at he
    exact .exprStmt (htokens _ _) (ih he.2)
  | block _ ih =>
    cases node' <;> simp only [untoken, reduceCtorEq, block.injEq] at he
    exact .block (htokens _ _) (hsame he.2 ih)
  | name =>
    cases node' <;> simp only [untoken, reduceCtorEq, ident.injEq] at he
    exact he.2 ▸ .ident (htokens _ _) (hvisible _)
  | ident _ ih => exact ih he
  | int =>
    cases node' <;> simp only [untoken, reduceCtorEq, int.injEq] at he
    exact he.2 ▸ .int (htokens _ _)
  | str =>
    cases node' <;> simp only [untoken, reduceCtorEq, str.injEq] at he
    exact he.2 ▸ .str (htokens _ _)
  | bool =>
    cases node' <;> simp only [untoken, reduceCtorEq, bool.injEq] at he
    exact he.2 ▸ .bool (htokens _ _)
  | prefixOp _ _ ih =>
    cases node' <;> simp only [untoken, reduceCtorEq, prefixOp.injEq] at he
    exact he.2.1 ▸ .prefixOp (htokens _ _) (ih he.2.2)
  | infixOp _ _ _ ih ih' =>
    cases node' <;> simp only [untoken, reduceCtorEq, infixOp.injEq] at he
    exact he.2.2.1 ▸ .infixOp (htokens _ _) (ih he.2.1) (ih' he.2.2.2)
  | cond _ _ ih ih' =>
    cases node' <;> simp only [untoken, reduceCtorEq, cond.injEq] at he
    next alternative' =>
      obtain ⟨_, hc, hb, ha⟩ := he
      refine .cond (htokens _ _) (ih hc) (ih' hb) ?_
      cases alternative' with
      | none => exact .none
      | some => cases ha
  | condElse _ _ _ ih ih' ih'' =>
    cases node' <;> simp only [untoken, reduceCtorEq, cond.injEq] at he
    next alternative' =>
      obtain ⟨_, hc, hb, ha⟩ := he
      refine .cond (htokens _ _) (ih hc) (ih' hb) ?_
      cases alternative' with
      | none => cases ha
      | some => exact .some (ih'' (Option.some.inj ha))
  | fn _ _ ih ih' =>
    cases node' <;> simp only [untoken, reduceCtorEq, fn.injEq] at he
    exact .fn (htokens _ _) (fun param _ ↦ hshows param) (hsame he.2.1 ih) (ih' he.2.2)
  | call _ _ ih ih' =>
    cases node' <;> simp only [untoken, reduceCtorEq, call.injEq] at he
    exact .call (htokens _ _) (ih he.2.1) (hsame he.2.2 ih')
  | array _ ih =>
    cases node' <;> simp only [untoken, reduceCtorEq, array.injEq] at he
    exact .array (htokens _ _) (hsame he.2 ih)
  | hash _ _ ih ih' =>
    cases node' <;> simp only [untoken, reduceCtorEq, hash.injEq] at he
    rw [pairsUntoken_eq_map, pairsUntoken_eq_map, map_eq_map_iff_forall₂] at he
    refine .hash (htokens _ _) (forall₂_imp_of_mem he.2 fun pair hp pair' hpair ↦ ?_)
    exact .intro (ih pair hp (congrArg Prod.fst hpair)) (ih' pair hp (congrArg Prod.snd hpair))
  | index _ _ ih ih' =>
    cases node' <;> simp only [untoken, reduceCtorEq, index.injEq] at he
    exact .index (htokens _ _) (ih he.2.1) (ih' he.2.2)

end MonkeyLang
