import MonkeyLang.Proofs.Evaluation.Effects
import MonkeyLang.Proofs.Run
import MonkeyLang.Proofs.Value.Parts
import Mathlib.Order.Basic

/-!
A relation between computations of some kind and runs that every step of evaluation keeps is kept by
evaluation as a whole. Results are the same on both sides; what may be known of the values that come
up is relative to a world that grows.
-/

namespace MonkeyLang

/-- The cause can come up in evaluation, which rejects no text. -/
def Abort.OfEvaluation (cause : Abort) : Prop := ∀ errors, cause ≠ .rejected errors

/-- A relation between computations and runs, with a rule for every step of evaluation. -/
structure Correspondence {m : Type → Type} [Monad m] (fx : Effects m) (registry : Registry)
    (W : Type) [Preorder W] where
  /-- The computation goes as the run does, from the world on; all results have the property in the
  world into which it has grown. -/
  holds {α : Type} : W → (W → α → Prop) → m α → Run α → Prop
  /-- The value may come up in the world. -/
  value : W → Value → Prop
  value_mono {w w' : W} {v : Value} : w ≤ w' → value w v → value w' v
  plain {w : W} {v : Value} : v.id? = none → v.parts = [] → value w v
  part {w : W} {v inner : Value} : value w v → inner ∈ v.parts → value w inner
  pure {α : Type} {w : W} {P : W → α → Prop} {a : α} :
    P w a → holds w P (Pure.pure a) (Pure.pure a)
  bind {α β : Type} {w : W} {P : W → α → Prop} {Q : W → β → Prop} {x : m α} {run : Run α}
    {f : α → m β} {g : α → Run β} :
    holds w P x run → (∀ w' a, w ≤ w' → P w' a → holds w' Q (f a) (g a)) →
      holds w Q (x >>= f) (run >>= g)
  lookup {w : W} (env : Address) (name : String) :
    holds w value (fx.lookup env name) (Evaluation.lookup registry env name)
  bindTo {w : W} {v : Value} (env : Address) (target : Node) :
    value w v → holds w (fun _ _ ↦ True) (fx.bindTo env target v) (Evaluation.bindTo env target v)
  create {w : W} {make : Nat → Value} :
    (∀ id, (make id).id? = some id) → (∀ id, ∀ inner ∈ (make id).parts, value w inner) →
      holds w value (fx.create make) (do return make (← Run.freshId))
  builtin {w : W} {args : List Value} (function : Builtin) :
    (∀ arg ∈ args, value w arg) → holds w value (fx.builtin function args) (function.apply args)
  enclose {w : W} (scope : Address) :
    holds w (fun _ _ ↦ True) (fx.enclose scope) (Run.enclose scope)
  record {w : W} (entry : LogRecord) :
    holds w (fun _ _ ↦ True) (fx.record entry) (Run.record entry)
  abort {α : Type} {w : W} {P : W → α → Prop} {cause : Abort} :
    cause.OfEvaluation → holds w P (fx.abort cause) (throw cause)
  inside {α : Type} {w : W} {P : W → α → Prop} {x : m α} {run : Run α} :
    holds w P x run → holds w P (fx.inside x) run
  note {w : W} {v : Value} : value w v → holds w value (fx.note v) (Pure.pure v)

namespace Correspondence

variable {m : Type → Type} [Monad m] {fx : Effects m} {registry : Registry} {W : Type} [Preorder W]
  (C : Correspondence fx registry W) {w : W} {env : Address} {α : Type}

def optional (w : W) (found : Option Value) : Prop := ∀ value ∈ found, C.value w value

def list (w : W) (values : List Value) : Prop := ∀ value ∈ values, C.value w value

def table (w : W) (entries : List (HashKey × Value × Value)) : Prop :=
  ∀ entry ∈ entries, C.value w entry.2.1 ∧ C.value w entry.2.2

/-- What has been evaluated in turn. A fault that came up is a value. -/
def evaluated (P : W → α → Prop) (w : W) : Except Value α → Prop
  | .ok a => P w a
  | .error fault => C.value w fault

variable {C}

theorem value_error (fault : Fault) : C.value w (.error fault) := C.plain rfl rfl

theorem value_computed {value : Value} (h : value.Computed) : C.value w value := by
  cases h <;> exact C.plain rfl rfl

theorem value_index {collection : Value} (h : C.value w collection) (key : Value) :
    C.value w (Value.index collection key) := by
  rcases Value.index_cases collection key with ⟨fault, hi⟩ | hi | hi
  · exact hi ▸ value_error fault
  · exact hi ▸ C.plain rfl rfl
  · exact C.part h hi

theorem value_unwrap {value : Value} (h : C.value w value) : C.value w value.unwrap := by
  cases value with
  | returned id inner => exact C.part h (List.mem_singleton.mpr rfl)
  | _ => exact h

theorem value_getD {found : Option Value} (h : C.optional w found) :
    C.value w (found.getD .null) := by
  cases found with
  | none => exact C.plain rfl rfl
  | some value => exact h value rfl

theorem optional_none : C.optional w none := by simp [optional]

theorem optional_some {value : Value} (h : C.value w value) : C.optional w (some value) :=
  fun _ hm ↦ Option.some.inj hm ▸ h

theorem optional_unwrap {found : Option Value} (h : C.optional w found) :
    C.optional w (found.map Value.unwrap) := by
  cases found with
  | none => exact optional_none
  | some value => exact optional_some (value_unwrap (h value rfl))

theorem holds_some {x : m Value} {run : Run Value} (h : C.holds w C.value x run) :
    C.holds w C.optional (do return some (← x)) (some <$> run) := by
  rw [map_eq_pure_bind]
  exact C.bind h fun _ _ _ hvalue ↦ C.pure (optional_some hvalue)

theorem holds_noted {x : m Value} {run : Run Value} (h : C.holds w C.value x run) :
    C.holds w C.value (fx.inside x >>= fx.note) run := by
  rw [← bind_pure run]
  exact C.bind (C.inside h) fun _ _ _ hvalue ↦ C.note hvalue

/-- An operand is used if it is no fault, and is the result if it is one. -/
theorem holds_operand {β : Type} {P : W → β → Prop} {x : m Value} {run : Run Value}
    {fault : Value → β} {f : Value → m β} {g : Value → Run β} (h : C.holds w C.value x run)
    (hfault : ∀ {w' value}, C.value w' value → P w' (fault value))
    (hk : ∀ w' value, w ≤ w' → C.value w' value → C.holds w' P (f value) (g value)) :
    C.holds w P (do
      let value ← x
      if value.isError then return fault value
      f value) (do
      let value ← run
      if value.isError then return fault value
      g value) := by
  refine C.bind h fun w' value hle hvalue ↦ ?_
  split
  · exact C.pure (hfault hvalue)
  · exact hk w' value hle hvalue

section Tree

-- applications are assumed for the whole of a mutual induction, of which not every part takes them
set_option linter.unusedSectionVars false

variable {apply : Value → List Value → m Value}
  {apply' : Value → List Value → Run Value}
  (happly : ∀ {w callee args}, C.value w callee → C.list w args →
    C.holds w C.value (apply callee args) (apply' callee args))

include happly

mutual

/-- By induction on the tree, along the definition, with one case for each form. -/
theorem holds_expr : (node : Node) → ∀ {w}, C.holds w C.value (fx.expr apply env node)
    (Evaluation.expr registry apply' env node)
  | .int .., _ | .str .., _ | .bool .., _ => holds_noted (C.pure (C.plain rfl rfl))
  | .ident _ name, _ => holds_noted (C.lookup env name)
  | .prefixOp _ op operand, _ => by
    refine holds_noted (holds_operand (holds_expr operand) id fun w' value hle hvalue ↦ ?_)
    exact C.pure (value_computed (Value.computed_applyPrefix op value))
  | .infixOp _ left op right, _ => by
    refine holds_noted (holds_operand (holds_expr left) id fun w' a hle ha ↦ ?_)
    refine holds_operand (holds_expr right) id fun w'' b hle' hb ↦ ?_
    exact C.pure (value_computed (Value.computed_applyInfix op a b))
  | .cond _ condition consequence alternative, _ => by
    refine holds_noted (holds_operand (holds_expr condition) id fun w' test hle htest ↦ ?_)
    split
    · exact C.bind (holds_body consequence) fun _ _ _ hfound ↦ C.pure (value_getD hfound)
    · exact C.bind (holds_alternativeBody alternative) fun _ _ _ hfound ↦
        C.pure (value_getD hfound)
  | .fn _ params code, _ => holds_noted (C.create (fun _ ↦ rfl) fun _ inner hm ↦ nomatch hm)
  | .call _ callee args, _ => by
    refine holds_noted (holds_operand (holds_expr callee) id fun w' function hle hfunction ↦ ?_)
    refine C.bind (holds_exprs args) fun w'' values hle' hvalues ↦ ?_
    cases values with
    | error fault => exact C.pure hvalues
    | ok values => exact happly (C.value_mono hle' hfunction) hvalues
  | .array _ elements, _ => by
    refine holds_noted (C.bind (holds_exprs elements) fun w' values hle hvalues ↦ ?_)
    cases values with
    | error fault => exact C.pure hvalues
    | ok values => exact C.create (fun _ ↦ rfl) fun _ inner hm ↦ hvalues inner hm
  | .hash _ pairs, _ => by
    refine holds_noted (C.bind (holds_entries pairs fun _ h ↦ nomatch h) fun w' result hle h ↦ ?_)
    cases result with
    | error fault => exact C.pure h
    | ok table =>
      refine C.create (fun _ ↦ rfl) fun _ inner hm ↦ ?_
      obtain ⟨entry, hentry, rfl | rfl⟩ := Value.mem_parts_hash.mp hm
      · exact (h entry hentry).1
      · exact (h entry hentry).2
  | .index _ collection key, _ => by
    refine holds_noted (holds_operand (holds_expr collection) id fun w' a hle ha ↦ ?_)
    refine holds_operand (holds_expr key) id fun w'' b hle' hb ↦ ?_
    exact C.pure (value_index (C.value_mono hle' ha) b)
  | .program _, _ | .letStmt .., _ | .returnStmt .., _ | .exprStmt .., _ | .block .., _
  | .bare .., _ | .foreign _, _ => holds_noted (C.abort nofun)

theorem holds_statement : (node : Node) → ∀ {w}, C.holds w C.optional
    (fx.statement apply env node) (Evaluation.statement registry apply' env node)
  | .exprStmt _ e, _ => C.inside (holds_some (holds_expr e))
  | .letStmt _ target e, _ => by
    refine C.inside (holds_operand (holds_expr e) optional_some fun w' value hle hvalue ↦ ?_)
    exact C.bind (C.bindTo env target hvalue) fun _ _ _ _ ↦ C.pure optional_none
  | .returnStmt _ e, _ => by
    refine C.inside (holds_operand (holds_expr e) optional_some fun w' value hle hvalue ↦ ?_)
    refine holds_some (C.create (fun _ ↦ rfl) fun _ inner hm ↦ ?_)
    exact List.mem_singleton.mp hm ▸ hvalue
  | .block _ nodes, _ => C.inside (holds_statements nodes optional_none)
  | .program _, _ | .ident .., _ | .int .., _ | .str .., _ | .bool .., _ | .prefixOp .., _
  | .infixOp .., _ | .cond .., _ | .fn .., _ | .call .., _ | .array .., _ | .hash .., _
  | .index .., _ | .bare .., _ | .foreign _, _ => C.inside (C.abort nofun)

theorem holds_body : (node : Node) → ∀ {w}, C.holds w C.optional (fx.body apply env node)
    (Evaluation.body registry apply' env node)
  | .block _ nodes, _ | .program nodes, _ => C.inside (holds_statements nodes optional_none)
  | .exprStmt .., _ | .letStmt .., _ | .returnStmt .., _ | .ident .., _ | .int .., _ | .str .., _
  | .bool .., _ | .prefixOp .., _ | .infixOp .., _ | .cond .., _ | .fn .., _ | .call .., _
  | .array .., _ | .hash .., _ | .index .., _ | .bare .., _ | .foreign _, _ =>
    C.inside (C.abort nofun)

theorem holds_alternativeBody : (alternative : Option Node) → ∀ {w}, C.holds w C.optional
    (fx.alternativeBody apply env alternative)
    (Evaluation.alternativeBody registry apply' env alternative)
  | none, _ => C.pure optional_none
  | some node, _ => holds_body node

theorem holds_statements : (nodes : List Node) → ∀ {w last}, C.optional w last →
    C.holds w C.optional (fx.statements apply env nodes last)
      (Evaluation.statements registry apply' env nodes last)
  | [], _, _, hlast => C.pure hlast
  | node :: others, _, _, _ => by
    refine C.bind (holds_statement node) fun w' value hle hvalue ↦ ?_
    split
    · exact C.pure hvalue
    · exact holds_statements others hvalue

theorem holds_exprs : (nodes : List Node) → ∀ {w}, C.holds w (C.evaluated C.list)
    (fx.exprs apply env nodes) (Evaluation.exprs registry apply' env nodes)
  | [], _ => C.pure fun _ h ↦ nomatch h
  | node :: others, _ => by
    refine holds_operand (holds_expr node) id fun w' value hle hvalue ↦ ?_
    refine C.bind (holds_exprs others) fun w'' result hle' hresult ↦ ?_
    cases result with
    | error fault => exact C.pure hresult
    | ok values =>
      exact C.pure (List.forall_mem_cons.mpr ⟨C.value_mono hle' hvalue, hresult⟩)

theorem holds_entries : (pairs : List (Node × Node)) → ∀ {w entries}, C.table w entries →
    C.holds w (C.evaluated C.table) (fx.entries apply env pairs entries)
      (Evaluation.entries registry apply' env pairs entries)
  | [], _, _, htable => C.pure htable
  | (keyNode, valueNode) :: others, _, _, htable => by
    refine holds_operand (holds_expr keyNode) id fun w' key hle hkey ↦ ?_
    cases hhash : key.hashKey? with
    | none => exact C.pure (value_error _)
    | some k =>
      refine holds_operand (holds_expr valueNode) id fun w'' value hle' hvalue ↦ ?_
      refine holds_entries others (OrderedMap.forall_mem_insert ?_ fun entry hm ↦ ?_)
      · exact ⟨C.value_mono hle' hkey, hvalue⟩
      · have hle'' := le_trans hle hle'
        exact ⟨C.value_mono hle'' (htable entry hm).1, C.value_mono hle'' (htable entry hm).2⟩

end

theorem holds_program (nodes : List Node) : C.holds w C.optional (fx.program apply env nodes)
    (Evaluation.program registry apply' env nodes) := by
  refine C.bind (C.record _) fun _ _ _ _ ↦ ?_
  exact C.bind (holds_statements happly nodes optional_none) fun _ _ _ hfound ↦
    C.pure (optional_unwrap hfound)

theorem holds_root (node : Node) : C.holds w C.optional (fx.root apply env node)
    (Evaluation.root registry apply' env node) := by
  cases node with
  | program nodes => exact holds_program happly nodes
  | letStmt | returnStmt | exprStmt | block => exact holds_statement happly _
  | bare role token =>
    cases role with
    | plain => exact C.abort nofun
    | statement => exact holds_statement happly _
    | expression => exact holds_some (holds_expr happly _)
  | foreign => exact C.abort nofun
  | _ => exact holds_some (holds_expr happly _)

end Tree

theorem holds_bindAll {params : List Node} {args : List Value} (hargs : C.list w args) :
    C.holds w (fun _ _ ↦ True) (fx.bindAll env params args)
      (Evaluation.bindAll env params args) := by
  induction params generalizing w args with
  | nil => exact C.pure trivial
  | cons target params ih =>
    cases args with
    | nil => exact C.pure trivial
    | cons value args =>
      obtain ⟨hvalue, hargs⟩ := List.forall_mem_cons.mp hargs
      refine C.bind (C.bindTo env target hvalue) fun w' _ hle _ ↦ ih fun arg harg ↦ ?_
      exact C.value_mono hle (hargs arg harg)

theorem holds_applyWith {enter : Address → Node → m (Option Value)}
    {enter' : Address → Node → Run (Option Value)}
    (henter : ∀ {w env code}, C.holds w C.optional (enter env code) (enter' env code))
    (callee : Value) {args : List Value} (hargs : C.list w args) :
    C.holds w C.value (fx.applyWith enter callee args)
      (Evaluation.applyWith enter' callee args) := by
  cases callee with
  | function id params code scope =>
    rw [Effects.applyWith, Evaluation.applyWith]
    split
    · exact C.pure (value_error _)
    · refine C.bind (C.record _) fun w₁ _ hle₁ _ ↦ C.bind (C.enclose scope) fun w₂ env hle₂ _ ↦ ?_
      have hargs' : C.list w₂ args :=
        fun arg harg ↦ C.value_mono (le_trans hle₁ hle₂) (hargs arg harg)
      refine C.bind (holds_bindAll hargs') fun _ _ _ _ ↦ C.bind henter fun _ _ _ hfound ↦ ?_
      exact C.pure (value_unwrap (value_getD hfound))
  | builtin function =>
    exact C.bind (C.record _) fun w' _ hle _ ↦
      C.builtin function fun arg harg ↦ C.value_mono hle (hargs arg harg)
  | _ => exact C.pure (value_error _)

theorem holds_apply (depth : Nat) (callee : Value) {args : List Value} (hargs : C.list w args) :
    C.holds w C.value (fx.apply depth callee args)
      (Evaluation.apply registry depth callee args) := by
  induction depth generalizing w callee args with
  | zero =>
    refine holds_applyWith ?_ callee hargs
    exact C.abort nofun
  | succ depth ih => exact holds_applyWith (holds_body (fun _ ↦ ih _) _) callee hargs

end Correspondence

/-- The only world there is where nothing need be known of values. -/
inductive SoleWorld
  | sole

instance : Preorder SoleWorld where
  le _ _ := True
  le_refl _ := trivial
  le_trans _ _ _ _ _ := trivial

/-- A relation between computations and runs that every step of evaluation keeps, whatever values
come up. -/
structure Congruence {m : Type → Type} [Monad m] (fx : Effects m) (registry : Registry) where
  rel {α : Type} : m α → Run α → Prop
  pure {α : Type} (a : α) : rel (Pure.pure a) (Pure.pure a)
  bind {α β : Type} {x : m α} {run : Run α} {f : α → m β} {g : α → Run β} :
    rel x run → (∀ a, run.MayGive a → rel (f a) (g a)) → rel (x >>= f) (run >>= g)
  lookup (env : Address) (name : String) :
    rel (fx.lookup env name) (Evaluation.lookup registry env name)
  bindTo (env : Address) (target : Node) (value : Value) :
    rel (fx.bindTo env target value) (Evaluation.bindTo env target value)
  create (make : Nat → Value) : rel (fx.create make) (do return make (← Run.freshId))
  builtin (function : Builtin) (args : List Value) :
    rel (fx.builtin function args) (function.apply args)
  enclose (scope : Address) : rel (fx.enclose scope) (Run.enclose scope)
  record (entry : LogRecord) : rel (fx.record entry) (Run.record entry)
  abort {α : Type} {cause : Abort} :
    cause.OfEvaluation → rel (fx.abort cause : m α) (throw cause)
  inside {α : Type} {x : m α} {run : Run α} : rel x run → rel (fx.inside x) run
  note (value : Value) : rel (fx.note value) (Pure.pure value)

namespace Congruence

variable {m : Type → Type} [Monad m] {fx : Effects m} {registry : Registry}
  (C : Congruence fx registry)

/-- All values may come up in the only world. -/
def correspondence : Correspondence fx registry SoleWorld where
  holds _ P x run := C.rel x run ∧ ∀ a, run.MayGive a → P .sole a
  value _ _ := True
  value_mono _ h := h
  plain _ _ := trivial
  part _ _ := trivial
  pure h := ⟨C.pure _, fun _ hb ↦ Run.eq_of_mayGive_pure hb ▸ h⟩
  bind h hf := by
    refine ⟨C.bind h.1 fun a ha ↦ (hf .sole a le_rfl (h.2 a ha)).1, fun b hb ↦ ?_⟩
    obtain ⟨a, ha, hb⟩ := Run.mayGive_bind hb
    exact (hf .sole a le_rfl (h.2 a ha)).2 b hb
  lookup env name := ⟨C.lookup env name, fun _ _ ↦ trivial⟩
  bindTo env target _ := ⟨C.bindTo env target _, fun _ _ ↦ trivial⟩
  create _ _ := ⟨C.create _, fun _ _ ↦ trivial⟩
  builtin function _ := ⟨C.builtin function _, fun _ _ ↦ trivial⟩
  enclose scope := ⟨C.enclose scope, fun _ _ ↦ trivial⟩
  record entry := ⟨C.record entry, fun _ _ ↦ trivial⟩
  abort h := ⟨C.abort h, fun _ ha ↦ absurd ha Run.not_mayGive_throw⟩
  inside h := ⟨C.inside h.1, h.2⟩
  note _ := ⟨C.note _, fun _ _ ↦ trivial⟩

theorem list_correspondence (values : List Value) : C.correspondence.list .sole values :=
  fun _ _ ↦ trivial

variable {C} {env : Address} {apply : Value → List Value → m Value}
  {apply' : Value → List Value → Run Value}

theorem rel_body (happly : ∀ callee args, C.rel (apply callee args) (apply' callee args))
    (node : Node) :
    C.rel (fx.body apply env node) (Evaluation.body registry apply' env node) :=
  (C.correspondence.holds_body (w := .sole) (fun _ _ ↦ ⟨happly _ _, fun _ _ ↦ trivial⟩) node).1

theorem rel_root (happly : ∀ callee args, C.rel (apply callee args) (apply' callee args))
    (node : Node) :
    C.rel (fx.root apply env node) (Evaluation.root registry apply' env node) :=
  (C.correspondence.holds_root (w := .sole) (fun _ _ ↦ ⟨happly _ _, fun _ _ ↦ trivial⟩) node).1

theorem rel_applyWith {enter : Address → Node → m (Option Value)}
    {enter' : Address → Node → Run (Option Value)}
    (henter : ∀ env code, C.rel (enter env code) (enter' env code)) (callee : Value)
    (args : List Value) :
    C.rel (fx.applyWith enter callee args) (Evaluation.applyWith enter' callee args) :=
  (C.correspondence.holds_applyWith ⟨henter _ _, fun _ _ _ _ ↦ trivial⟩ callee
    (C.list_correspondence args)).1

theorem rel_apply (C : Congruence fx registry) (depth : Nat) (callee : Value) (args : List Value) :
    C.rel (fx.apply depth callee args) (Evaluation.apply registry depth callee args) :=
  (C.correspondence.holds_apply depth callee (C.list_correspondence args)).1

theorem rel_evaluate (C : Congruence fx registry) (depth : Nat) (env : Address) (node : Node) :
    C.rel (fx.evaluate depth env node) (node.evaluate registry depth env) :=
  rel_root (C.rel_apply depth) node

end Congruence

namespace Effects

/-- Runs are equal if all their steps are. -/
def plainCongruence (registry : Registry) : Congruence (plain registry) registry where
  rel x run := x = run
  pure _ := rfl
  bind {_ _ x _ f g} h hf := by
    subst h
    funext machine
    rw [Run.run_bind, Run.run_bind]
    cases hx : x machine with
    | ok a after => exact congrFun (hf a ⟨machine, after, hx⟩) after
    | error cause after => rfl
  lookup _ _ := rfl
  bindTo _ _ _ := rfl
  create _ := rfl
  builtin _ _ := rfl
  enclose _ := rfl
  record _ := rfl
  abort _ := rfl
  inside h := h
  note _ := rfl

/-- With the steps as they are, evaluation is evaluation proper. -/
theorem plain_evaluate (registry : Registry) (depth : Nat) (env : Address) (node : Node) :
    (plain registry).evaluate depth env node = node.evaluate registry depth env :=
  (plainCongruence registry).rel_evaluate depth env node

end Effects

end MonkeyLang
