import MonkeyLang.Proofs.Evaluation.Agreement

/-!
Faults are exceptions that nothing catches: evaluation agrees with the evaluation that throws them.
-/

namespace MonkeyLang

open Run Thrower

namespace Evaluation

variable {E : Address → Prop} {registry : Registry} {env : Address}

theorem yields_lookup (henv : E env) (name : String) :
    Yields E (Value.Sound E) (lookup registry env name) :=
  (gives_lookup (fun _ ↦ .builtin) henv name).yields

theorem yields_builtin (function : Builtin) {args : List Value}
    (h : ∀ arg ∈ args, arg.Faultless E) : Yields E (Value.Sound E) (function.apply args) := by
  refine ((gives_builtin function args).mono fun value hanswer ↦ ?_).yields
  exact Value.sound_iff_within.mpr (hanswer.within Value.isError_of_isPlain fun arg harg ↦
    Value.faultless_iff_within.mp (h arg harg))

/-- A statement agrees with one that throws: a fault that it returns is its value. -/
abbrev AgreesOnStatement (E : Address → Prop) :
    Run (Option Value) → Thrower (Option Value) → Prop :=
  Agrees E (fun value ↦ value) (fun fault ↦ some (.error fault)) fun value ↦
    ∀ v ∈ value, v.Faultless E

section Tree

-- the assumptions are those of a mutual induction, of which not every part takes them
set_option linter.unusedSectionVars false

variable {apply : Value → List Value → Run Value} {apply' : Value → List Value → Thrower Value}
  (happly : ∀ callee args, callee.Faultless E → (∀ arg ∈ args, Value.Faultless E arg) →
    AgreesOnValue E (apply callee args) (apply' callee args))
  (henv : E env)

include happly henv

mutual

theorem agrees_expr : (node : Node) →
    AgreesOnValue E (expr registry apply env node) (Throwing.expr registry apply' env node)
  | .int .. => agrees_pure .integer
  | .str .. => agrees_pure .string
  | .bool .. => agrees_pure .boolean
  | .ident _ name => agrees_raise_run (yields_lookup henv name)
  | .prefixOp _ op operand => by
    refine agrees_value_bind (agrees_expr operand) (fun _ ↦ rfl) fun value _ ↦ ?_
    exact agrees_raise (Value.computed_applyPrefix op value).sound
  | .infixOp _ left op right => by
    refine agrees_value_bind (agrees_expr left) (fun _ ↦ rfl) fun a _ ↦ ?_
    refine agrees_value_bind (agrees_expr right) (fun _ ↦ rfl) fun b _ ↦ ?_
    exact agrees_raise (Value.computed_applyInfix op a b).sound
  | .cond _ condition consequence alternative => by
    refine agrees_value_bind (agrees_expr condition) (fun _ ↦ rfl) fun test _ ↦ ?_
    split
    · exact agrees_bind (agrees_body consequence) (fun _ h ↦ agrees_pure (.getD h)) fun _ ↦ rfl
    · exact agrees_bind (agrees_alternativeBody alternative) (fun _ h ↦ agrees_pure (.getD h))
        fun _ ↦ rfl
  | .fn _ params code => agrees_lift (gives_create fun _ ↦ .function henv).yields
  | .call _ callee args => by
    refine agrees_value_bind (agrees_expr callee) (fun _ ↦ rfl) fun function hfunction ↦ ?_
    refine agrees_bind (agrees_exprs args) (fun values hvalues ↦ ?_) fun _ ↦ rfl
    exact agrees_useAll hvalues (happly function values hfunction hvalues)
  | .array _ elements => by
    refine agrees_bind (agrees_exprs elements) (fun values hvalues ↦ ?_) fun _ ↦ rfl
    exact agrees_useAll hvalues (agrees_lift (gives_create fun _ ↦ .array hvalues).yields)
  | .hash _ pairs => by
    refine agrees_bind (agrees_entries pairs [] (by simp)) (fun table htable ↦ ?_) fun _ ↦ rfl
    have hhash : ∀ id, (Value.hash id table).Faultless E := fun _ ↦
      .hash (fun entry hm ↦ (htable entry hm).1) fun entry hm ↦ (htable entry hm).2
    exact agrees_lift (gives_create hhash).yields
  | .index _ collection key => by
    refine agrees_value_bind (agrees_expr collection) (fun _ ↦ rfl) fun a ha ↦ ?_
    refine agrees_value_bind (agrees_expr key) (fun _ ↦ rfl) fun b _ ↦ ?_
    exact agrees_raise (Value.sound_index ha b)
  | .program _ | .letStmt .. | .returnStmt .. | .exprStmt .. | .block .. | .bare ..
  | .foreign _ => agrees_abort _

theorem agrees_statement : (node : Node) →
    AgreesOnStatement E (statement registry apply env node)
      (Throwing.statement registry apply' env node)
  | .exprStmt _ e => agrees_map (agrees_expr e) (fun _ h ↦ ⟨rfl, by simpa using h⟩) fun _ ↦ rfl
  | .letStmt _ target e => by
    refine agrees_value_bind (agrees_expr e) (fun _ ↦ rfl) fun value hvalue ↦ ?_
    rw [Throwing.bindTo, bind_assoc]
    exact agrees_use hvalue
      (agrees_lift_bind (gives_bindTo target hvalue).yields fun _ _ ↦ agrees_pure (by simp))
  | .returnStmt _ e => by
    refine agrees_value_bind (agrees_expr e) (fun _ ↦ rfl) fun value hvalue ↦ ?_
    have hreturned : AgreesOnValue E (newReturned value) (liftM (newReturned value)) :=
      agrees_lift (gives_create fun _ ↦ .returned hvalue).yields
    exact agrees_use hvalue (agrees_map hreturned (fun _ h ↦ ⟨rfl, by simpa using h⟩) fun _ ↦ rfl)
  | .block _ nodes => agrees_statements nodes none (by simp)
  | .program _ | .ident .. | .int .. | .str .. | .bool .. | .prefixOp .. | .infixOp .. | .cond ..
  | .fn .. | .call .. | .array .. | .hash .. | .index .. | .bare .. | .foreign _ => agrees_abort _

theorem agrees_body : (node : Node) →
    AgreesOnStatement E (body registry apply env node) (Throwing.body registry apply' env node)
  | .block _ nodes | .program nodes => agrees_statements nodes none (by simp)
  | .exprStmt .. | .letStmt .. | .returnStmt .. | .ident .. | .int .. | .str .. | .bool ..
  | .prefixOp .. | .infixOp .. | .cond .. | .fn .. | .call .. | .array .. | .hash .. | .index ..
  | .bare .. | .foreign _ => agrees_abort _

theorem agrees_alternativeBody : (alternative : Option Node) →
    AgreesOnStatement E (alternativeBody registry apply env alternative)
      (Throwing.alternativeBody registry apply' env alternative)
  | none => agrees_pure (by simp)
  | some node => agrees_body node

theorem agrees_statements : (nodes : List Node) → (last : Option Value) →
    (∀ value ∈ last, Value.Faultless E value) →
    AgreesOnStatement E (statements registry apply env nodes last)
      (Throwing.statements registry apply' env nodes last)
  | [], _, h => agrees_pure h
  | node :: others, _, _ => by
    refine agrees_bind (agrees_statement node) (fun value hvalue ↦ ?_) fun _ ↦ rfl
    cases value with
    | none => exact agrees_statements others none hvalue
    | some v =>
      cases hvalue v rfl with
      | returned h => exact agrees_pure hvalue
      | _ => exact agrees_statements others _ hvalue

theorem agrees_exprs : (nodes : List Node) →
    Agrees E .ok (fun fault ↦ .error (.error fault)) (fun values ↦ ∀ v ∈ values, v.Faultless E)
      (exprs registry apply env nodes) (Throwing.exprs registry apply' env nodes)
  | [] => agrees_pure (by simp)
  | node :: others => by
    refine agrees_value_bind (agrees_expr node) (fun _ ↦ rfl) fun value hvalue ↦ ?_
    refine agrees_bind (agrees_exprs others) (fun values hvalues ↦ ?_) fun _ ↦ rfl
    exact agrees_pure (List.forall_mem_cons.mpr ⟨hvalue, hvalues⟩)

theorem agrees_entries : (pairs : List (Node × Node)) →
    (table : List (HashKey × Value × Value)) →
    (∀ entry ∈ table, Value.Faultless E entry.2.1 ∧ Value.Faultless E entry.2.2) →
    Agrees E .ok (fun fault ↦ .error (.error fault))
      (fun table ↦ ∀ entry ∈ table, entry.2.1.Faultless E ∧ entry.2.2.Faultless E)
      (entries registry apply env pairs table) (Throwing.entries registry apply' env pairs table)
  | [], _, h => agrees_pure h
  | (keyNode, valueNode) :: others, table, h => by
    refine agrees_value_bind (agrees_expr keyNode) (fun _ ↦ rfl) fun key hkey ↦ ?_
    cases key.hashKey? with
    | none => exact agrees_fault _
    | some k =>
      refine agrees_value_bind (agrees_expr valueNode) (fun _ ↦ rfl) fun value hvalue ↦ ?_
      refine agrees_useAll (by simp [hkey, hvalue]) ?_
      exact agrees_entries others _ (OrderedMap.forall_mem_insert ⟨hkey, hvalue⟩ h)

end

end Tree

theorem agrees_bindAll {params : List Node} {args : List Value}
    {α β : Type} {ok : β → α} {fail : Fault → α} {P : β → Prop} {k : Unit → Run α}
    {k' : Unit → Thrower β} (hargs : ∀ arg ∈ args, arg.Faultless E)
    (hk : Agrees E ok fail P (k ()) (k' ())) :
    Agrees E ok fail P (bindAll env params args >>= k)
      (Throwing.bindAll env params args >>= k') := by
  induction params generalizing args with
  | nil => exact hk
  | cons param params ih =>
    cases args with
    | nil => exact hk
    | cons value args =>
      obtain ⟨hvalue, hothers⟩ := List.forall_mem_cons.mp hargs
      rw [bindAll, Throwing.bindAll, Throwing.bindTo]
      simp only [bind_assoc]
      exact agrees_use hvalue
        (agrees_lift_bind (gives_bindTo param hvalue).yields fun _ _ ↦ ih hothers)

theorem agrees_applyWith {enter : Address → Node → Run (Option Value)}
    {enter' : Address → Node → Thrower (Option Value)}
    (h : ∀ env code, E env → AgreesOnStatement E (enter env code) (enter' env code))
    (callee : Value) (args : List Value) (hcallee : callee.Faultless E)
    (hargs : ∀ arg ∈ args, arg.Faultless E) :
    AgreesOnValue E (applyWith enter callee args) (Throwing.applyWith enter' callee args) := by
  cases hcallee with
  | @function id params code scope hscope =>
    rw [applyWith, Throwing.applyWith]
    by_cases hlen : params.length ≠ args.length
    · rw [if_pos hlen, if_pos hlen]
      exact agrees_fault _
    · rw [if_neg hlen, if_neg hlen]
      refine agrees_lift_bind (gives_record _).yields fun _ _ ↦ ?_
      refine agrees_lift_bind (gives_enclose hscope).yields fun env henv ↦ agrees_bindAll hargs ?_
      refine agrees_bind (h env code henv) (fun value hvalue ↦ ?_) fun _ ↦ rfl
      exact agrees_pure (Value.Faultless.getD hvalue).unwrap
  | builtin =>
    refine agrees_lift_bind (gives_record _).yields fun _ _ ↦ ?_
    exact agrees_raise_run (yields_builtin _ hargs)
  | _ => exact agrees_fault _

theorem agrees_apply (registry : Registry) (depth : Nat) (callee : Value) (args : List Value)
    (hcallee : callee.Faultless E) (hargs : ∀ arg ∈ args, arg.Faultless E) :
    AgreesOnValue E (apply registry depth callee args)
      (Throwing.apply registry depth callee args) := by
  induction depth generalizing callee args with
  | zero => exact agrees_applyWith (fun _ _ _ ↦ agrees_abort _) callee args hcallee hargs
  | succ depth ih =>
    exact agrees_applyWith (fun env code henv ↦ agrees_body ih henv code) callee args hcallee hargs

theorem agrees_program (nodes : List Node) (registry : Registry) (depth : Nat) (henv : E env) :
    AgreesOnStatement E ((Node.program nodes).evaluate registry depth env)
      (Throwing.evaluate nodes registry depth env) := by
  refine agrees_lift_bind (gives_record _).yields fun _ _ ↦ ?_
  refine agrees_bind (agrees_statements (agrees_apply registry depth) henv nodes none (by simp))
    (fun value hvalue ↦ agrees_pure fun v hv ↦ ?_) fun _ ↦ rfl
  obtain ⟨w, hw, rfl⟩ := Option.map_eq_some_iff.mp hv
  exact (hvalue w hw).unwrap

theorem AgreesOnStatement.caught_eq {run : Run (Option Value)} {thrower : Thrower (Option Value)}
    (h : AgreesOnStatement E run thrower) {machine : Machine} (hregion : machine.store.Region E) :
    caught (thrower.run machine) = some (run machine) ∧ (run.behind machine).store.Region E := by
  have hrun := h machine hregion
  rcases ht : thrower.run machine with ⟨exit | value, after⟩ | ⟨cause, after⟩
  · rw [ht] at hrun
    cases exit with
    | fault fault =>
      obtain ⟨hr, hafter⟩ := hrun
      rw [behind, hr]
      exact ⟨rfl, hafter⟩
    | misuse fault => exact hrun.elim
  · rw [ht] at hrun
    obtain ⟨hr, _, hafter⟩ := hrun
    rw [behind, hr]
    exact ⟨rfl, hafter⟩
  · rw [ht] at hrun
    obtain ⟨hr, hafter⟩ := hrun
    rw [behind, hr]
    exact ⟨rfl, hafter⟩

/-- Where no fault can be reached from the environment, a program has the value, the output and the
frames of the evaluation that throws every fault to the top, in which no fault is ever bound, passed
on, stored or wrapped; and none can be reached afterwards. -/
theorem evaluate_eq_throwing (nodes : List Node) (registry : Registry) (depth : Nat)
    (env : Address) (machine : Machine) (h : machine.store.FaultFree env) :
    caught ((Throwing.evaluate nodes registry depth env).run machine) =
        some ((Node.program nodes).evaluate registry depth env machine) ∧
      (((Node.program nodes).evaluate registry depth env).behind machine).store.FaultFree env := by
  have henv : machine.store.Around env env := .inl rfl
  obtain ⟨hcaught, hregion⟩ := (agrees_program nodes registry depth henv).caught_eq h.region
  exact ⟨hcaught, fun value hreach ↦ (hregion.faultless henv hreach).isError⟩

/-- The fault of an addition in the first call of `puts` ends a program before the second one. -/
theorem evaluate_eq_throwing_puts :
    let store : Store := ⟨#[⟨[("a", .array 0 [.integer 1])], []⟩]⟩
    let machine : Machine := ⟨store, 1, "", #[]⟩
    let first : Node := .index .eof (.ident .eof "a") (.int .eof 0)
    let puts : Node → Node := fun arg ↦ .exprStmt .eof (.call .eof (.ident .eof "puts") [arg])
    let nodes := [puts first, puts (.infixOp .eof first "+" (.bool .eof true)), puts first]
    store.FaultFree 0 ∧
      caught ((Throwing.evaluate nodes .standard maxDepth 0).run machine) =
        some ((Node.program nodes).evaluate .standard maxDepth 0 machine) ∧
      (((Node.program nodes).evaluate .standard maxDepth 0).behind machine).store.FaultFree 0 := by
  intro store machine first puts nodes
  have hlocal : ∀ name address value, store.local? name address = some value →
      value = .array 0 [.integer 1] := by
    intro name address value hvalue
    cases address with
    | zero =>
      simp only [Store.local?, Store.frame?, store, List.getElem?_toArray, List.getElem?_cons_zero,
        Option.bind_some, OrderedMap.find?] at hvalue
      split at hvalue
      · exact (Option.some.inj hvalue).symm
      · cases hvalue
    | succ address => simp [Store.local?, Store.frame?, store] at hvalue
  have hregion : store.Region fun _ ↦ True := by
    refine ⟨fun _ _ ↦ trivial, fun env _ address _ name value hvalue ↦ ?_⟩
    rw [hlocal name address value hvalue]
    exact .array fun v hv ↦ by rw [List.mem_singleton.mp hv]; exact .integer
  have hfree : store.FaultFree 0 := fun value hreach ↦ (hregion.faultless trivial hreach).isError
  exact ⟨hfree, evaluate_eq_throwing nodes .standard maxDepth 0 machine hfree⟩

end Evaluation

end MonkeyLang
