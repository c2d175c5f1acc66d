import MonkeyLang.Proofs.Invariant
import MonkeyLang.Proofs.Reading.Kept
import MonkeyLang.Proofs.Session

/-!
Trees that can be read are evaluated under guard as they are without: while an invariant holds, no
step fails but one that takes the length of something that is too long.
-/

namespace MonkeyLang

namespace Guarded

/-- The values of a step that has a result for all operands are those of evaluation proper. -/
theorem applyInfix_eq (op : String) (left right : Value) :
    applyInfix op left right = pure (Value.applyInfix op left right) := by
  unfold applyInfix
  split
  · next a b =>
    split
    · next hop =>
      subst hop
      by_cases hb : b = 0
      · simp only [if_pos hb, Value.applyInfix, Value.integerInfix]
      · simp only [if_neg hb, divide, Value.applyInfix, Value.integerInfix, pure_bind]
    · rfl
  · rfl

theorem elementAt_eq {elements : List Value} {i : Int} {element : Value} (hi : 0 ≤ i)
    (h : elements[i.toNat]? = some element) : elementAt elements i = pure element := by
  rw [elementAt, if_neg (Int.not_lt.mpr hi), h]

theorem index_eq (collection key : Value) :
    index collection key = pure (Value.index collection key) := by
  unfold index
  split
  · next elements i =>
    rw [Value.index, Value.element]
    by_cases hneg : i < 0
    · rw [if_pos (.inl hneg), if_pos hneg]
    · rw [if_neg hneg]
      by_cases hbeyond : elements.length ≤ i
      · rw [if_pos (.inr hbeyond), List.getElem?_eq_none (by omega), Option.getD_none]
      · have hlt : i.toNat < elements.length := by omega
        have hfound : elements[i.toNat]? = some elements[i.toNat] := List.getElem?_eq_getElem hlt
        rw [if_neg (by omega), elementAt_eq (by omega) hfound, hfound, Option.getD_some]
  · rfl

theorem performBuiltin_eq (function : Builtin) (args : List Value) :
    performBuiltin function args = liftM (function.apply args) := by
  unfold performBuiltin
  split
  · next elements =>
    cases elements with
    | nil => rfl
    | cons element others =>
      have hfirst : (element :: others)[(0 : Int).toNat]? = some element := rfl
      exact elementAt_eq (Int.le_refl 0) hfirst
  · next elements =>
    cases elements with
    | nil => rfl
    | cons element others =>
      refine elementAt_eq (by simp) ?_
      simp [List.getLast?_eq_getElem?]
  · rfl

end Guarded

namespace Invariant

variable {W : Type} [Preorder W] {guard : Guard} {I : Invariant W guard} {w : W}
  {registry : Registry} {env : Address}

theorem guards_builtin {function : Builtin} {args : List Value} (h : I.list w args) :
    I.Guards some I.value w (function.apply args)
      (some <$> Guarded.applyBuiltin guard function args) := by
  rw [Guarded.applyBuiltin]
  split
  · next hpermits =>
    rw [Guarded.performBuiltin_eq]
    exact (gives_builtin h hpermits).guards_map
  · next hpermits => exact fun _ _ ↦ ⟨rfl, guard.exists_unmeasured (by simpa using hpermits)⟩

theorem gives_bindTo {target : Node} {value : Value} (htarget : target.Readable .name)
    (henv : I.env w env) (hvalue : I.value w value) :
    I.Gives (fun _ _ ↦ True) w (Evaluation.bindTo env target value) := by
  cases htarget with
  | name => exact gives_bindName henv hvalue

theorem gives_bindAll {params : List Node} {args : List Value}
    (hparams : ∀ param ∈ params, param.Readable .name) (henv : I.env w env)
    (hargs : I.list w args) : I.Gives (fun _ _ ↦ True) w (Evaluation.bindAll env params args) := by
  induction params generalizing w args with
  | nil => exact gives_pure trivial
  | cons target params ih =>
    obtain ⟨htarget, hparams⟩ := List.forall_mem_cons.mp hparams
    cases args with
    | nil => exact gives_pure trivial
    | cons value args =>
      obtain ⟨hvalue, hargs⟩ := List.forall_mem_cons.mp hargs
      refine gives_bind (gives_bindTo htarget henv hvalue) fun w' _ hle _ ↦ ?_
      exact ih hparams (I.env_mono hle henv) fun arg harg ↦ I.value_mono hle (hargs arg harg)

section Tree

variable {apply : Value → List Value → Run Value}
  {apply' : Value → List Value → Guarded (Option Value)}

/-- Evaluation goes as it does under guard, for a node in such a place. The name that a statement or a
function binds is not evaluated. -/
def Judged (I : Invariant W guard) (registry : Registry) (apply : Value → List Value → Run Value)
    (apply' : Value → List Value → Guarded (Option Value)) (node : Node) : Node.Place → Prop
  | .expression => ∀ {w env}, I.env w env →
    I.Guards some I.value w (Evaluation.expr registry apply env node)
      (Guarded.expr guard registry apply' env node)
  | .statement => ∀ {w env}, I.env w env →
    I.Guards id I.optional w (Evaluation.statement registry apply env node)
      (Guarded.statement guard registry apply' env node)
  | .block | .program => ∀ {w env}, I.env w env →
    I.Guards id I.optional w (Evaluation.body registry apply env node)
      (Guarded.body guard registry apply' env node)
  | .name => True

theorem guards_statements {nodes : List Node}
    (h : ∀ node ∈ nodes, I.Judged registry apply apply' node .statement) {last : Option Value}
    (hlast : I.optional w last) (henv : I.env w env) :
    I.Guards id I.optional w (Evaluation.statements registry apply env nodes last)
      (Guarded.statements guard registry apply' env nodes last) := by
  induction nodes generalizing w last with
  | nil => exact guards_pure hlast
  | cons node others ih =>
    obtain ⟨hnode, hothers⟩ := List.forall_mem_cons.mp h
    refine guards_bind (hnode henv) fun w' value hle hvalue ↦ ?_
    dsimp only [id]
    split
    · exact guards_pure hvalue
    · exact ih hothers hvalue (I.env_mono hle henv)

theorem guards_exprs {nodes : List Node}
    (h : ∀ node ∈ nodes, I.Judged registry apply apply' node .expression) (henv : I.env w env) :
    I.Guards id (I.evaluated I.list) w (Evaluation.exprs registry apply env nodes)
      (Guarded.exprs guard registry apply' env nodes) := by
  induction nodes generalizing w with
  | nil => exact guards_pure (List.forall_mem_nil _)
  | cons node others ih =>
    obtain ⟨hnode, hothers⟩ := List.forall_mem_cons.mp h
    refine guards_operand (hnode henv) (fun w' value hle hvalue ↦ ?_) id
    refine guards_bind (ih hothers (I.env_mono hle henv)) fun w'' result hle' hresult ↦ ?_
    cases result with
    | error fault => exact guards_pure hresult
    | ok values =>
      exact guards_pure (List.forall_mem_cons.mpr ⟨I.value_mono hle' hvalue, hresult⟩)

theorem guards_entries {pairs : List (Node × Node)}
    (hk : ∀ pair ∈ pairs, I.Judged registry apply apply' pair.1 .expression)
    (hv : ∀ pair ∈ pairs, I.Judged registry apply apply' pair.2 .expression)
    {entries : List (HashKey × Value × Value)} (htable : I.table w entries)
    (henv : I.env w env) :
    I.Guards id (I.evaluated I.table) w (Evaluation.entries registry apply env pairs entries)
      (Guarded.entries guard registry apply' env pairs entries) := by
  induction pairs generalizing w entries with
  | nil => exact guards_pure htable
  | cons pair others ih =>
    obtain ⟨keyNode, valueNode⟩ := pair
    obtain ⟨hkeyNode, hk⟩ := List.forall_mem_cons.mp hk
    obtain ⟨hvalueNode, hv⟩ := List.forall_mem_cons.mp hv
    refine guards_operand (hkeyNode henv) (fun w' key hle hkey ↦ ?_) id
    cases hhash : key.hashKey? with
    | none => exact guards_pure (value_error _)
    | some k =>
      refine guards_operand (hvalueNode (I.env_mono hle henv)) (fun w'' value hle' hvalue ↦ ?_) id
      have hle'' := hle.trans hle'
      -- the entries that are there already come from an earlier world
      refine ih hk hv ⟨htable.1.insert hhash, ?_⟩ (I.env_mono hle'' henv)
      refine OrderedMap.forall_mem_insert ⟨I.value_mono hle' hkey, hvalue⟩ fun entry hm ↦ ?_
      exact ⟨I.value_mono hle'' (htable.2 entry hm).1, I.value_mono hle'' (htable.2 entry hm).2⟩

theorem guards_getD {run : Run (Option Value)} {guarded : Guarded (Option Value)}
    (h : I.Guards id I.optional w run guarded) :
    I.Guards some I.value w (do return (← run).getD .null)
      (do return some ((← guarded).getD .null)) :=
  guards_bind h fun _ _ _ hvalue ↦ guards_pure (value_getD hvalue)

/-- By induction on the tree, with one case for each form that can be read. -/
theorem judged_of_readable
    (happly : ∀ {w callee args}, I.value w callee → I.list w args →
      I.Guards some I.value w (apply callee args) (apply' callee args))
    {place : Node.Place} {node : Node} (h : node.Readable place) :
    I.Judged registry apply apply' node place := by
  induction h with
  | program _ ih | block _ ih => exact fun henv ↦ guards_statements ih optional_none henv
  | @letStmt _ name value hname _ _ ih =>
    intro w env henv
    refine guards_operand (ih henv) (fun w' value hle hvalue ↦ ?_) optional_some
    refine guards_bind (gives_bindTo hname (I.env_mono hle henv) hvalue).guards fun _ _ _ _ ↦ ?_
    exact guards_pure optional_none
  | returnStmt _ ih =>
    intro w env henv
    refine guards_operand (ih henv) (fun w' value hle hvalue ↦ ?_) optional_some
    exact guards_some (gives_create (.returned hvalue)).guards
  | exprStmt _ ih =>
    intro w env henv
    rw [Evaluation.statement, map_eq_pure_bind]
    exact guards_use (ih henv) fun w' value _ hvalue ↦ guards_pure (optional_some hvalue)
  | name => exact trivial
  | ident hname _ =>
    intro w env henv
    cases hname with
    | name => exact (gives_lookup henv _).guards_map
  | int hlower hupper => exact fun _ ↦ guards_pure (I.elementary (.literal hlower hupper))
  | str => exact fun _ ↦ guards_pure (I.elementary (.computed .string))
  | bool => exact fun _ ↦ guards_pure (I.elementary (.computed .boolean))
  | prefixOp _ _ ih =>
    intro w env henv
    refine guards_operand (ih henv) (fun w' value hle hvalue ↦ ?_) id
    exact guards_pure (I.elementary (.computed (Value.computed_applyPrefix _ _)))
  | infixOp _ _ _ ihl ihr =>
    intro w env henv
    refine guards_operand (ihl henv) (fun w' a hle ha ↦ ?_) id
    refine guards_operand (ihr (I.env_mono hle henv)) (fun w'' b hle' hb ↦ ?_) id
    rw [Guarded.applyInfix_eq]
    exact guards_pure (I.elementary (.computed (Value.computed_applyInfix _ _ _)))
  | cond _ _ ihc ihb =>
    intro w env henv
    refine guards_operand (ihc henv) (fun w' test hle htest ↦ ?_) id
    split
    · exact guards_getD (ihb (I.env_mono hle henv))
    · exact guards_pure (I.elementary .null)
  | condElse _ _ _ ihc ihb iha =>
    intro w env henv
    refine guards_operand (ihc henv) (fun w' test hle htest ↦ ?_) id
    split
    · exact guards_getD (ihb (I.env_mono hle henv))
    · exact guards_getD (iha (I.env_mono hle henv))
  | fn hparams hbody =>
    exact fun henv ↦ (gives_create (.function hparams hbody henv)).guards_map
  | call _ _ ihc iha =>
    intro w env henv
    refine guards_operand (ihc henv) (fun w' function hle hfunction ↦ ?_) id
    refine guards_bind (guards_exprs iha (I.env_mono hle henv)) fun w'' result hle' hresult ↦ ?_
    cases result with
    | error fault => exact guards_pure hresult
    | ok values => exact happly (I.value_mono hle' hfunction) hresult
  | array _ ih =>
    intro w env henv
    refine guards_bind (guards_exprs ih henv) fun w' result hle hresult ↦ ?_
    cases result with
    | error fault => exact guards_pure hresult
    | ok values => exact (gives_create (.array hresult)).guards_map
  | hash _ _ ihk ihv =>
    intro w env henv
    refine guards_bind (guards_entries ihk ihv ⟨.nil, by simp⟩ henv) fun w' result hle hresult ↦ ?_
    cases result with
    | error fault => exact guards_pure hresult
    | ok entries => exact (gives_create (.hash hresult.1 hresult.2)).guards_map
  | index _ _ ihc ihk =>
    intro w env henv
    refine guards_operand (ihc henv) (fun w' a hle ha ↦ ?_) id
    refine guards_operand (ihk (I.env_mono hle henv)) (fun w'' b hle' hb ↦ ?_) id
    rw [Guarded.index_eq]
    exact guards_pure (value_index (I.value_mono hle' ha) _)

end Tree

theorem guards_applyWith {enter : Address → Node → Run (Option Value)}
    {enter' : Address → Node → Guarded (Option Value)}
    (h : ∀ {w env code}, I.env w env → code.Readable .block →
      I.Guards id I.optional w (enter env code) (enter' env code))
    {callee : Value} {args : List Value} (hcallee : I.value w callee) (hargs : I.list w args) :
    I.Guards some I.value w (Evaluation.applyWith enter callee args)
      (Guarded.applyWith guard enter' callee args) := by
  cases callee with
  | function id params code scope =>
    obtain ⟨hparams, hcode, hscope⟩ := I.function hcallee
    rw [Evaluation.applyWith, Guarded.applyWith]
    split
    · exact guards_pure (value_error _)
    · refine guards_bind (gives_record _).guards fun w' _ hle _ ↦ ?_
      have henclose := gives_enclose (I.env_mono hle hscope)
      refine guards_bind henclose.guards fun w'' env hle' henv ↦ ?_
      have hargs' : I.list w'' args := fun arg harg ↦ I.value_mono (hle.trans hle') (hargs arg harg)
      refine guards_bind (gives_bindAll hparams henv hargs').guards fun w₃ _ hle'' _ ↦ ?_
      refine guards_bind (h (I.env_mono hle'' henv) hcode) fun w₄ value _ hvalue ↦ ?_
      exact guards_pure (value_unwrap (value_getD hvalue))
  | builtin function =>
    refine guards_bind (gives_record _).guards fun w' _ hle _ ↦ ?_
    exact guards_builtin fun arg harg ↦ I.value_mono hle (hargs arg harg)
  | _ => exact guards_pure (value_error _)

theorem guards_apply (depth : Nat) {callee : Value} {args : List Value}
    (hcallee : I.value w callee) (hargs : I.list w args) :
    I.Guards some I.value w (Evaluation.apply registry depth callee args)
      (Guarded.apply guard registry depth callee args) := by
  induction depth generalizing w callee args with
  | zero => exact guards_applyWith (fun _ _ ↦ guards_abort rfl) hcallee hargs
  | succ depth ih =>
    refine guards_applyWith (fun henv hcode ↦ ?_) hcallee hargs
    exact judged_of_readable ih hcode henv

theorem guards_evaluateText (henv : I.env w env) (text : String) :
    I.Guards id I.optional w (evaluateText registry env text)
      (Guarded.evaluateText guard registry env text) := by
  have hrecord : I.Gives (fun _ _ ↦ True) w (Run.recordErrors (parse text)) := by
    intro machine hstate
    obtain ⟨log, hrun⟩ := Evaluation.recordErrors_run (parse text) machine
    exact ⟨(), _, hrun, w, le_refl w, hstate, trivial⟩
  refine guards_bind hrecord.guards fun w' _ hle _ ↦ ?_
  rw [Parsed.toExcept]
  by_cases hempty : (parse text).errors.isEmpty = true
  · rw [if_pos hempty]
    refine guards_bind (gives_record _).guards fun w'' _ hle' _ ↦ ?_
    have henv' := I.env_mono (hle.trans hle') henv
    refine guards_bind (judged_of_readable (guards_apply maxDepth) (parse_readable text) henv')
      fun w₃ value _ hvalue ↦ guards_pure ?_
    cases value with
    | none => exact optional_none
    | some value => exact optional_some (value_unwrap (hvalue value rfl))
  · rw [if_neg hempty]
    exact guards_abort rfl

/-- The outcome is no internal fault, and the value, if there is one, is one of the world. -/
def sound (I : Invariant W guard) (w : W) : Outcome → Prop
  | .ok found => I.optional w found
  | .error cause => cause.isInternal = false

theorem sound_mono {w' : W} (h : w ≤ w') {outcome : Outcome} (hs : I.sound w outcome) :
    I.sound w' outcome := by
  cases outcome with
  | ok found => exact fun value hm ↦ I.value_mono h (hs value hm)
  | error cause => exact hs

theorem guards_outcome {run : Run (Option Value)} {guarded : Guarded (Option Value)}
    (h : I.Guards id I.optional w run guarded) :
    I.Guards id I.sound w run.outcome guarded.outcome := by
  intro machine hstate
  have hrun := h machine hstate
  rw [Guarded.outcome_run, Run.outcome]
  rcases hg : guarded.run machine with ⟨misstep | found, after⟩ | ⟨cause, after⟩ <;>
    rw [hg] at hrun
  · exact hrun
  · obtain ⟨_, rfl, hr, hgrown⟩ := hrun
    rw [hr]
    exact ⟨_, rfl, rfl, hgrown⟩
  · obtain ⟨hr, hcause, w', hle, hafter, _⟩ := hrun
    rw [hr]
    exact ⟨_, rfl, rfl, w', hle, hafter, hcause⟩

theorem guards_take {envs : List Address} (henvs : ∀ env ∈ envs, I.env w env)
    (steps : List SessionStep) :
    I.Guards id (fun w outcomes ↦ ∀ outcome ∈ outcomes, I.sound w outcome) w
      (Session.take (fun registry env source ↦ (evaluateText registry env source).outcome)
        envs steps)
      (Session.take (fun registry env source ↦
        (Guarded.evaluateText guard registry env source).outcome) envs steps) := by
  induction steps generalizing w envs with
  | nil => exact guards_pure (List.forall_mem_nil _)
  | cons step steps ih =>
    have hmono : ∀ {w'}, w ≤ w' → ∀ env ∈ envs, I.env w' env :=
      fun hle env hm ↦ I.env_mono hle (henvs env hm)
    cases step with
    | fresh =>
      refine guards_bind gives_newEnvironment.guards fun w' env hle henv ↦ ih ?_
      exact List.forall_mem_append.mpr ⟨hmono hle, by simpa using henv⟩
    | enclosed outer =>
      rw [Session.take, Session.take]
      cases houter : envs[outer]? with
      | none => exact ih henvs
      | some outer =>
        have henclose := gives_enclose (henvs outer (List.mem_of_getElem? houter))
        refine guards_bind henclose.guards fun w' env hle henv ↦ ih ?_
        exact List.forall_mem_append.mpr ⟨hmono hle, by simpa using henv⟩
    | text registry env source =>
      rw [Session.take, Session.take]
      cases henv : envs[env]? with
      | none => exact ih henvs
      | some env =>
        have htext : I.Guards id I.optional w (evaluateText registry env source)
          (Guarded.evaluateText guard registry env source) :=
          guards_evaluateText (henvs env (List.mem_of_getElem? henv)) source
        refine guards_bind (guards_outcome htext) fun w' outcome hle houtcome ↦ ?_
        refine guards_bind (ih (hmono hle)) fun w'' outcomes hle' houtcomes ↦ ?_
        exact guards_pure (List.forall_mem_cons.mpr ⟨sound_mono hle' houtcome, houtcomes⟩)

end Invariant

end MonkeyLang
