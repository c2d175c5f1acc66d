import MonkeyLang.Proofs.Evaluation.Returning
import MonkeyLang.Session

/-!
Return statements leave function calls and programs at once, and wrapped results are not seen, where
conditionals with return statements are statements by themselves. Elsewhere a call may give a
wrapped result, but only if a return statement has wrapped one again.
-/

namespace MonkeyLang

open Run Watcher

namespace Evaluation

variable {regime : Regime} {E : Address → Prop} {registry : Registry} {env : Address}

abbrev AgreesOnExpr (regime : Regime) (E : Address → Prop) (escapes : Prop) :
    Run Value → Watcher Value → Prop :=
  regime.Agrees E escapes (fun value ↦ value) (regime.Fits E escapes)

abbrev AgreesOnStmt (regime : Regime) (E : Address → Prop) (returns : Prop) :
    Run (Option Value) → Watcher (Option Value) → Prop :=
  regime.Agrees E returns some fun value ↦ ∀ v ∈ value, regime.Fits E returns v

/-- A list of nodes agrees if its values satisfy `P` or there is a fault among them. -/
abbrev AgreesOnList {α : Type} (regime : Regime) (E : Address → Prop) (P : α → Prop) :
    Run (Except Value α) → Watcher (Except Value α) → Prop :=
  regime.Agrees E False .error fun result ↦ match result with
    | .ok values => P values
    | .error value => ∃ fault, value = .error fault

theorem gives_lookup_fits (henv : E env) (name : String) (returns : Prop) :
    Gives (Store.Confined E (regime.Keeps E)) (regime.Fits E returns)
      (lookup registry env name) := by
  have hbuiltin : ∀ function, regime.Keeps E (.builtin function) := fun _ ↦
    .plain Regime.admits_of_isPlain rfl (by simp [Value.parts])
  exact (gives_lookup hbuiltin henv name).mono fun _ ↦ Regime.fits_of_within

theorem agrees_getD {returns : Prop} {run : Run (Option Value)} {watcher : Watcher (Option Value)}
    (h : AgreesOnStmt regime E returns run watcher) :
    AgreesOnExpr regime E returns (do return (← run).getD .null)
      (do return (← watcher).getD .null) :=
  Regime.agrees_bind h (fun _ hvalue ↦ Regime.agrees_pure (.getD hvalue)) fun hr ↦
    ⟨hr, fun _ _ ↦ rfl⟩

section Tree

-- the assumptions are those of a mutual induction, of which not every part takes them
set_option linter.unusedSectionVars false

variable {apply : Value → List Value → Run Value} {apply' : Value → List Value → Watcher Value}
  (happly : ∀ callee args, regime.Keeps E callee → (∀ arg ∈ args, regime.Keeps E arg) →
    AgreesOnExpr regime E False (apply callee args) (apply' callee args))
  (henv : E env)

include happly henv

mutual

theorem watched_expr : (node : Node) → (whole : Bool) →
    (regime = .loose ∨ node.disciplined whole = true) →
    AgreesOnExpr regime E (node.escapes whole = true) (expr registry apply env node)
      (Watched.expr regime registry apply' env node)
  | .int .., _, _ | .str .., _, _ | .bool .., _, _ =>
    Regime.agrees_pure (Regime.fits_data rfl rfl trivial)
  | .ident _ name, _, _ => Regime.agrees_lift (gives_lookup_fits henv name _)
  | .prefixOp _ op operand, _, h => by
    have hoperand := watched_expr operand false h
    refine Regime.agrees_operand hoperand operand.not_escapes (by decide) Regime.fits_error
      fun value _ _ ↦ ?_
    exact Regime.agrees_pure (Regime.fits_computed (Value.computed_applyPrefix op value))
  | .infixOp _ left op right, _, h => by
    simp only [Node.disciplined, Bool.and_eq_true] at h
    have hleft := watched_expr left false (h.imp_right And.left)
    have hright := watched_expr right false (h.imp_right And.right)
    refine Regime.agrees_operand hleft left.not_escapes (by decide) Regime.fits_error fun a _ _ ↦ ?_
    refine Regime.agrees_operand hright right.not_escapes (by decide) Regime.fits_error
      fun b _ _ ↦ ?_
    exact Regime.agrees_pure (Regime.fits_computed (Value.computed_applyInfix op a b))
  | .cond token condition consequence alternative, whole, h => by
    simp only [Node.disciplined, Bool.and_eq_true, Bool.or_eq_true, Bool.not_eq_true'] at h
    have hcondition := watched_expr condition false (h.imp_right fun h ↦ h.1.1.1)
    have hconsequence := watched_body consequence (h.imp_right fun h ↦ h.1.1.2)
    have halternative := watched_alternativeBody alternative (h.imp_right fun h ↦ h.1.2)
    have hescapes : ∀ {returns : Bool}, returns = consequence.returns ∨
        returns = alternativeReturns alternative → regime ≠ .loose → returns = true →
        (Node.cond token condition consequence alternative).escapes whole = true := by
      intro returns hreturns hregime htrue
      obtain rfl : whole = true := by grind
      rw [Node.escapes]
      grind
    refine Regime.agrees_operand hcondition condition.not_escapes (by decide) Regime.fits_error
      fun test _ _ ↦ ?_
    split
    · have hes := hescapes (.inl rfl)
      exact (agrees_getD hconsequence).mono (fun hl ↦ hes (by rw [hl]; decide))
        fun _ hvalue ↦ hvalue.mono hes
    · have hes := hescapes (.inr rfl)
      exact (agrees_getD halternative).mono (fun hl ↦ hes (by rw [hl]; decide))
        fun _ hvalue ↦ hvalue.mono hes
  | .fn _ params code, _, h =>
    Regime.agrees_lift (gives_create fun _ ↦ .inr (.inl (.function h henv)))
  | .call _ callee args, _, h => by
    simp only [Node.disciplined, Bool.and_eq_true] at h
    have hcallee := watched_expr callee false (h.imp_right And.left)
    have hargs := watched_exprs args .passed (by decide) (h.imp_right And.right)
    refine Regime.agrees_operand hcallee callee.not_escapes (by decide) Regime.fits_error
      fun function hfunction _ ↦ ?_
    refine Regime.agrees_bind hargs (fun result hresult ↦ ?_) False.elim
    split
    · obtain ⟨fault, rfl⟩ := hresult
      exact Regime.agrees_pure (Regime.fits_error fault)
    · exact (happly function _ hfunction hresult).mono (fun _ ↦ False.elim) fun _ h ↦
        h.mono fun _ ↦ False.elim
  | .array _ elements, _, h => by
    refine Regime.agrees_bind (watched_exprs elements .stored (by decide) h)
      (fun result hresult ↦ ?_)
      False.elim
    split
    · obtain ⟨fault, rfl⟩ := hresult
      exact Regime.agrees_pure (Regime.fits_error fault)
    · exact Regime.agrees_lift (gives_create fun _ ↦ .inr (.inl (.array trivial hresult)))
  | .hash _ pairs, _, h => by
    refine Regime.agrees_bind (watched_entries pairs [] (by simp) h) (fun result hresult ↦ ?_)
      False.elim
    split
    · obtain ⟨fault, rfl⟩ := hresult
      exact Regime.agrees_pure (Regime.fits_error fault)
    · exact Regime.agrees_lift (gives_create fun _ ↦ .inr (.inl (.hash trivial hresult)))
  | .index _ collection key, _, h => by
    simp only [Node.disciplined, Bool.and_eq_true] at h
    have hcollection := watched_expr collection false (h.imp_right And.left)
    have hkey := watched_expr key false (h.imp_right And.right)
    refine Regime.agrees_operand hcollection collection.not_escapes (by decide) Regime.fits_error
      fun a ha _ ↦ ?_
    refine Regime.agrees_operand hkey key.not_escapes (by decide) Regime.fits_error fun b _ _ ↦ ?_
    have hresult := Value.within_index Regime.admits_of_isPlain ha b
    exact Regime.agrees_pure (Regime.fits_of_within hresult)
  | .program _, _, _ | .letStmt .., _, _ | .returnStmt .., _, _ | .exprStmt .., _, _
  | .block .., _, _ | .bare .., _, _ | .foreign _, _, _ => Regime.agrees_abort _

theorem watched_statement : (node : Node) → (regime = .loose ∨ node.disciplined false = true) →
    AgreesOnStmt regime E (node.returns = true) (statement registry apply env node)
      (Watched.statement regime registry apply' env node)
  | .exprStmt _ e, h => by
    rw [statement, map_eq_pure_bind]
    refine Regime.agrees_bind (watched_expr e true h) (fun value hvalue ↦ ?_)
      fun hescapes ↦ ⟨e.returns_of_escapes hescapes, fun _ _ ↦ rfl⟩
    have hsome : ∀ v ∈ some value, regime.Fits E (e.returns = true) v := by
      simpa using hvalue.mono fun _ ↦ e.returns_of_escapes
    cases e with
    | call =>
      refine Regime.agrees_check (by decide) (fun hr ↦ ?_) fun _ ↦ Regime.agrees_pure hsome
      exact Regime.eq_loose_of_fits hvalue Bool.false_ne_true hr
    | _ => exact Regime.agrees_pure hsome
  | .letStmt _ target e, h => by
    refine Regime.agrees_operand (watched_expr e false h) e.not_escapes (by decide)
      (by simp [Regime.fits_error]) fun value hvalue _ ↦ ?_
    exact Regime.agrees_lift_bind (gives_bindTo target hvalue) fun _ _ ↦
      Regime.agrees_pure (by simp)
  | .returnStmt _ e, h => by
    refine Regime.agrees_operand (watched_expr e false h) e.not_escapes (by decide)
      (by simp [Regime.fits_error]) fun value hvalue hforbids ↦ ?_
    exact (Regime.agrees_leave hvalue (hforbids (by cases regime <;> decide))).mono
      (fun _ _ ↦ rfl) fun _ hwrapped v hv ↦ (hwrapped v hv).mono fun _ _ ↦ rfl
  | .block _ nodes, h => watched_statements nodes none (by simp) h
  | .program _, _ | .ident .., _ | .int .., _ | .str .., _ | .bool .., _ | .prefixOp .., _
  | .infixOp .., _ | .cond .., _ | .fn .., _ | .call .., _ | .array .., _ | .hash .., _
  | .index .., _ | .bare .., _ | .foreign _, _ => Regime.agrees_abort _

theorem watched_body : (node : Node) → (regime = .loose ∨ node.disciplined false = true) →
    AgreesOnStmt regime E (node.returns = true) (body registry apply env node)
      (Watched.body regime registry apply' env node)
  | .block _ nodes, h | .program nodes, h => watched_statements nodes none (by simp) h
  | .exprStmt .., _ | .letStmt .., _ | .returnStmt .., _ | .ident .., _ | .int .., _ | .str .., _
  | .bool .., _ | .prefixOp .., _ | .infixOp .., _ | .cond .., _ | .fn .., _ | .call .., _
  | .array .., _ | .hash .., _ | .index .., _ | .bare .., _ | .foreign _, _ =>
    Regime.agrees_abort _

theorem watched_alternativeBody : (alternative : Option Node) →
    (regime = .loose ∨ alternativeDisciplined alternative = true) →
    AgreesOnStmt regime E (alternativeReturns alternative = true)
      (alternativeBody registry apply env alternative)
      (Watched.alternativeBody regime registry apply' env alternative)
  | none, _ => Regime.agrees_pure (by simp)
  | some node, h => watched_body node h

theorem watched_statements : (nodes : List Node) → (last : Option Value) →
    (∀ value ∈ last, regime.Keeps E value) →
    (regime = .loose ∨ nodesDisciplined nodes = true) →
    AgreesOnStmt regime E (nodesReturn nodes = true) (statements registry apply env nodes last)
      (Watched.statements regime registry apply' env nodes last)
  | [], _, hlast, _ => Regime.agrees_pure fun v hv ↦ .inr (.inl (hlast v hv))
  | node :: others, _, _, h => by
    simp only [nodesDisciplined, Bool.and_eq_true] at h
    have hnode := watched_statement node (h.imp_right And.left)
    have hreturns : node.returns = true → nodesReturn (node :: others) = true := by
      intro hr
      rw [nodesReturn, hr, Bool.true_or]
    refine Regime.agrees_bind hnode (fun value hvalue ↦ ?_) fun hr ↦ ⟨hreturns hr, fun _ _ ↦ rfl⟩
    have hstops : value.any regime.stops = value.any Value.endsSequence := by
      cases value with
      | none => rfl
      | some v => exact Regime.stops_eq (hvalue v rfl)
    rw [hstops]
    split
    · exact Regime.agrees_pure fun v hv ↦ (hvalue v hv).mono fun _ ↦ hreturns
    · next hends =>
      have hlast : ∀ v ∈ value, regime.Keeps E v := by
        rintro v rfl
        exact Regime.keeps_of_not_endsSequence (hvalue v rfl) (by simpa using hends)
      have hothers : nodesReturn others = true → nodesReturn (node :: others) = true := by
        intro hr
        rw [nodesReturn, hr, Bool.or_true]
      exact (watched_statements others value hlast (h.imp_right And.right)).mono (fun _ ↦ hothers)
        fun _ hv v hm ↦ (hv v hm).mono fun _ ↦ hothers

theorem watched_exprs : (nodes : List Node) → (use : Use) → use ≠ .yielded →
    (regime = .loose ∨ nodesDisciplined nodes = true) →
    AgreesOnList regime E (fun values ↦ ∀ v ∈ values, regime.Keeps E v)
      (exprs registry apply env nodes) (Watched.exprs regime registry apply' env use nodes)
  | [], _, _, _ => Regime.agrees_pure (by simp)
  | node :: others, use, huse, h => by
    simp only [nodesDisciplined, Bool.and_eq_true] at h
    have hnode := watched_expr node false (h.imp_right And.left)
    have hothers := watched_exprs others use huse (h.imp_right And.right)
    refine Regime.agrees_operand hnode node.not_escapes huse (fun fault ↦ ⟨fault, rfl⟩)
      fun value hvalue _ ↦ ?_
    refine Regime.agrees_bind hothers (fun result hresult ↦ ?_) False.elim
    split
    · exact Regime.agrees_pure hresult
    · exact Regime.agrees_pure (List.forall_mem_cons.mpr ⟨hvalue, hresult⟩)

theorem watched_entries : (pairs : List (Node × Node)) →
    (table : List (HashKey × Value × Value)) →
    (∀ entry ∈ table, regime.Keeps E entry.2.1 ∧ regime.Keeps E entry.2.2) →
    (regime = .loose ∨ pairsDisciplined pairs = true) →
    AgreesOnList regime E
      (fun table ↦ ∀ entry ∈ table, regime.Keeps E entry.2.1 ∧ regime.Keeps E entry.2.2)
      (entries registry apply env pairs table)
      (Watched.entries regime registry apply' env pairs table)
  | [], _, htable, _ => Regime.agrees_pure htable
  | (keyNode, valueNode) :: others, table, htable, h => by
    simp only [pairsDisciplined, Bool.and_eq_true] at h
    have hkeyNode := watched_expr keyNode false (h.imp_right fun h ↦ h.1.1)
    have hvalueNode := watched_expr valueNode false (h.imp_right fun h ↦ h.1.2)
    refine Regime.agrees_operand hkeyNode keyNode.not_escapes (by decide)
      (fun fault ↦ ⟨fault, rfl⟩) fun key hkey _ ↦ ?_
    cases key.hashKey? with
    | none => exact Regime.agrees_pure ⟨_, rfl⟩
    | some k =>
      refine Regime.agrees_operand hvalueNode valueNode.not_escapes (by decide)
        (fun fault ↦ ⟨fault, rfl⟩) fun value hvalue _ ↦ ?_
      exact watched_entries others _ (OrderedMap.forall_mem_insert ⟨hkey, hvalue⟩ htable)
        (h.imp_right And.right)

end

end Tree

/-- A value that has arrived where returns end is not wrapped. -/
abbrev Arrives (regime : Regime) (E : Address → Prop) (value : Value) : Prop :=
  regime.Fits E False value ∧ value.isReturned = false

theorem watched_bindAll {params : List Node} {args : List Value} {α : Type} {returns : Prop}
    {wrap : Value → α} {P : α → Prop} {k : Unit → Run α} {k' : Unit → Watcher α}
    (hargs : ∀ arg ∈ args, regime.Keeps E arg)
    (hk : regime.Agrees E returns wrap P (k ()) (k' ())) :
    regime.Agrees E returns wrap P (bindAll env params args >>= k)
      (Watched.bindAll regime env params args >>= k') := by
  induction params generalizing args with
  | nil => exact hk
  | cons param params ih =>
    cases args with
    | nil => exact hk
    | cons value args =>
      obtain ⟨hvalue, hothers⟩ := List.forall_mem_cons.mp hargs
      rw [bindAll, Watched.bindAll]
      simp only [bind_assoc]
      refine Regime.agrees_check (by decide) (Regime.eq_loose hvalue) fun _ ↦ ?_
      exact Regime.agrees_lift_bind (gives_bindTo param hvalue) fun _ _ ↦ ih hothers

theorem watched_applyWith {enter : Address → Node → Run (Option Value)}
    {enter' : Address → Node → Watcher (Option Value)}
    (h : ∀ env code, E env → (regime = .loose ∨ code.disciplined false = true) →
      AgreesOnStmt regime E (code.returns = true) (enter env code) (enter' env code))
    (callee : Value) (args : List Value) (hcallee : regime.Keeps E callee)
    (hargs : ∀ arg ∈ args, regime.Keeps E arg) :
    AgreesOnExpr regime E False (applyWith enter callee args)
      (Watched.applyWith regime enter' callee args) := by
  cases callee with
  | function id params code scope =>
    rw [applyWith, Watched.applyWith]
    split
    · exact Regime.agrees_pure (Regime.fits_error _)
    · refine Regime.agrees_lift_bind (gives_record _) fun _ _ ↦ ?_
      refine Regime.agrees_lift_bind (gives_enclose (hcallee.scope rfl)) fun env henv ↦ ?_
      refine watched_bindAll hargs ?_
      have harrive := Regime.agrees_arrive (h env code henv hcallee.self)
      have hunwrap : (do return ((← enter env code).getD .null).unwrap) =
          (Option.map Value.unwrap <$> enter env code) >>= fun value ↦ pure (value.getD .null) := by
        rw [map_eq_pure_bind, bind_assoc]
        congr
        funext value
        cases value <;> rfl
      rw [hunwrap]
      refine Regime.agrees_bind harrive (fun value hvalue ↦ ?_) False.elim
      have hresult : Arrives regime E (value.getD .null) := by
        cases value with
        | none => exact ⟨Regime.fits_data rfl rfl trivial, rfl⟩
        | some v => exact hvalue v rfl
      dsimp only
      rw [Regime.check_eq_pure hresult.2, pure_bind]
      exact Regime.agrees_pure hresult.1
  | builtin function =>
    refine Regime.agrees_lift_bind (gives_record _) fun _ _ ↦ ?_
    have hanswer : ∀ value, Builtin.Answers args value → AgreesOnExpr regime E False (pure value)
        (regime.check .fetched value >>= fun _ ↦ pure value) := by
      intro value hvalue
      have hfits : regime.Fits E False value :=
        Regime.fits_of_within (hvalue.within Regime.admits_of_isPlain hargs)
      exact Regime.agrees_check (by decide) (Regime.eq_loose_of_fits hfits id) fun _ ↦
        Regime.agrees_pure hfits
    have happly := Regime.agrees_lift_bind (gives_builtin function args) hanswer
    rwa [bind_pure] at happly
  | _ => exact Regime.agrees_pure (Regime.fits_error _)

theorem watched_apply (registry : Registry) (depth : Nat) (callee : Value) (args : List Value)
    (hcallee : regime.Keeps E callee) (hargs : ∀ arg ∈ args, regime.Keeps E arg) :
    AgreesOnExpr regime E False (apply registry depth callee args)
      (Watched.apply regime registry depth callee args) := by
  induction depth generalizing callee args with
  | zero =>
    exact watched_applyWith (fun _ _ _ _ ↦ Regime.agrees_abort _) callee args hcallee hargs
  | succ depth ih =>
    exact watched_applyWith (fun env code henv hcode ↦ watched_body ih henv code hcode) callee args
      hcallee hargs

theorem watched_program (nodes : List Node) (registry : Registry) (depth : Nat) (henv : E env)
    (h : regime = .loose ∨ (Node.program nodes).disciplined false = true) :
    regime.Agrees E False some (fun value ↦ ∀ v ∈ value, Arrives regime E v)
      ((Node.program nodes).evaluate registry depth env)
      (Watched.evaluate regime nodes registry depth env) := by
  refine Regime.agrees_lift_bind (gives_record _) fun _ _ ↦ ?_
  have hstatements : AgreesOnStmt regime E (nodesReturn nodes = true)
      (statements registry (apply registry depth) env nodes none)
      (Watched.statements regime registry (Watched.apply regime registry depth) env nodes none) :=
    watched_statements (watched_apply registry depth) henv nodes none (by simp) h
  rw [← map_eq_pure_bind, ← bind_pure (Option.map Value.unwrap <$> _)]
  refine Regime.agrees_bind (Regime.agrees_arrive hstatements) (fun value hvalue ↦ ?_) False.elim
  cases value with
  | none => exact Regime.agrees_pure hvalue
  | some v =>
    dsimp only
    rw [Regime.check_eq_pure (hvalue v rfl).2, pure_bind]
    exact Regime.agrees_pure hvalue

/-- What comes of runs that agree and from which no return statement leaves. -/
theorem settled_of_agrees {run : Run (Option Value)} {watcher : Watcher (Option Value)}
    {P : Option Value → Prop} (h : regime.Agrees E False some P run watcher) {machine : Machine}
    (hstore : machine.store.Confined E (regime.Keeps E)) :
    (settled (watcher.run machine) = some (run machine) ∧
        (run.behind machine).store.Confined E (regime.Keeps E)) ∨
      regime = .loose ∧ ∃ use after, watcher.run machine = .ok (.error (.misuse use)) after ∧
        (use = .nested ∨ use = .ended) := by
  have hrun := h machine hstore
  rcases hw : watcher.run machine with ⟨departure | value, after⟩ | ⟨cause, after⟩
  · rw [hw] at hrun
    cases departure with
    | leave value => exact hrun.2.1.elim
    | misuse use => exact .inr ⟨hrun.1, use, after, rfl, hrun.2⟩
  · rw [hw] at hrun
    obtain ⟨hr, _, hafter⟩ := hrun
    rw [Run.behind, hr]
    exact .inl ⟨rfl, hafter⟩
  · rw [hw] at hrun
    obtain ⟨hr, hafter⟩ := hrun
    rw [Run.behind, hr]
    exact .inl ⟨rfl, hafter⟩

theorem settled_of_disciplined (hregime : regime ≠ .loose) {nodes : List Node}
    (hnodes : (Node.program nodes).disciplined false = true) (registry : Registry) (depth : Nat)
    {machine : Machine} (h : machine.store.Disciplined env) :
    settled ((Watched.evaluate regime nodes registry depth env).run machine) =
        some ((Node.program nodes).evaluate registry depth env machine) ∧
      (((Node.program nodes).evaluate registry depth env).behind
        machine).store.Disciplined env := by
  have henv : machine.store.Around env env := .inl rfl
  have hstore : machine.store.Confined (machine.store.Around env)
      (regime.Keeps (machine.store.Around env)) :=
    Store.confined_of_reaches fun value hreach ↦ (Regime.admits_iff hregime).mpr (h value hreach)
  have hwhen : regime = .loose ∨ (Node.program nodes).disciplined false = true := .inr hnodes
  have hagrees := watched_program nodes registry depth henv hwhen
  rcases settled_of_agrees hagrees hstore with ⟨hsettled, hafter⟩ | ⟨hloose, _⟩
  · exact ⟨hsettled, fun value hreach ↦
      (Regime.admits_iff hregime).mp (hafter.within henv hreach).self⟩
  · exact absurd hloose hregime

/-- Where conditionals with return statements are statements by themselves, in the program and in
all functions that can be reached, return statements leave the function call or the program around
them: value, output and frames are those of the evaluation in which they do. In neither evaluation
is a wrapped result ever bound, passed on, stored, operated on or wrapped again, and no call and no
program gives one. -/
theorem evaluate_eq_leaving {nodes : List Node}
    (hnodes : (Node.program nodes).disciplined false = true) (registry : Registry) (depth : Nat)
    (env : Address) (machine : Machine) (h : machine.store.Disciplined env) :
    let result := (Node.program nodes).evaluate registry depth env machine
    settled ((Watched.evaluate .strict nodes registry depth env).run machine) = some result ∧
      settled ((Watched.evaluate .leaving nodes registry depth env).run machine) = some result ∧
      (((Node.program nodes).evaluate registry depth env).behind machine).store.Disciplined env := by
  have hstrict := settled_of_disciplined (show Regime.strict ≠ .loose by decide) hnodes registry
    depth h
  have hleaving := settled_of_disciplined (show Regime.leaving ≠ .loose by decide) hnodes registry
    depth h
  exact ⟨hstrict.1, hleaving.1, hstrict.2⟩

/-- A function that calls itself from a conditional before it returns, and a return statement that
ends the program before `puts` is called. -/
theorem evaluate_eq_leaving_recursive :
    let name : String → Node := .ident .eof
    let call : String → Node → Node := fun callee arg ↦ .call .eof (name callee) [arg]
    let leave : Node → Node → Node := fun condition result ↦
      .exprStmt .eof (.cond .eof condition (.block .eof [.returnStmt .eof result]) none)
    let code : Node := .block .eof
      [leave (name "x") (call "f" (.prefixOp .eof "!" (name "x"))), .exprStmt .eof (.int .eof 5)]
    let store : Store := ⟨#[⟨[("f", .function 0 [name "x"] code 0)], []⟩]⟩
    let machine : Machine := ⟨store, 1, "", #[]⟩
    let nodes := [.letStmt .eof (name "g") (name "f"), leave (.bool .eof true) (call "g" (name "g")),
      .exprStmt .eof (call "puts" (name "f"))]
    let result := (Node.program nodes).evaluate .standard maxDepth 0 machine
    (Node.program nodes).disciplined false = true ∧ store.Disciplined 0 ∧
      settled ((Watched.evaluate .strict nodes .standard maxDepth 0).run machine) = some result ∧
      settled ((Watched.evaluate .leaving nodes .standard maxDepth 0).run machine) = some result ∧
      (((Node.program nodes).evaluate .standard maxDepth 0).behind machine).store.Disciplined 0 := by
  intro name call leave code store machine nodes result
  have hlocal : ∀ x address value, store.local? x address = some value →
      value = .function 0 [name "x"] code 0 := by
    intro x address value hvalue
    cases address with
    | zero =>
      simp only [Store.local?, Store.frame?, store, List.getElem?_toArray, List.getElem?_cons_zero,
        Option.bind_some, OrderedMap.find?] at hvalue
      split at hvalue
      · exact (Option.some.inj hvalue).symm
      · cases hvalue
    | succ address => simp [Store.local?, Store.frame?, store] at hvalue
  have hconfined : store.Confined (fun _ ↦ True)
      (Value.Within (fun _ ↦ True) fun value ↦ value.isDisciplined = true) := by
    refine ⟨fun _ _ ↦ trivial, fun env _ address _ x value hvalue ↦ ?_⟩
    rw [hlocal x address value hvalue]
    exact .function rfl trivial
  have hnodes : (Node.program nodes).disciplined false = true := rfl
  have hstore : store.Disciplined 0 := fun value hreach ↦ (hconfined.within trivial hreach).self
  exact ⟨hnodes, hstore, evaluate_eq_leaving hnodes .standard maxDepth 0 machine hstore⟩

/-- In a new environment no call of a function and no program gives a wrapped result, and none ends
the statements around a call, unless a return statement wraps a wrapped result again or a builtin
function gives one as the value of a statement. -/
theorem evaluate_eq_loose (nodes : List Node) (registry : Registry) (depth : Nat)
    (machine : Machine) :
    let run : Run (Option Value) := do
      (Node.program nodes).evaluate registry depth (← newEnvironment)
    let watcher : Watcher (Option Value) := do
      Watched.evaluate .loose nodes registry depth (← newEnvironment)
    settled (watcher.run machine) = some (run machine) ∨
      ∃ use after, watcher.run machine = .ok (.error (.misuse use)) after ∧
        (use = .nested ∨ use = .ended) := by
  let env := machine.store.nextAddress
  let start : Machine := { machine with store := machine.store.addFrame [] }
  have hstore : start.store.Confined (start.store.Around env)
      (Regime.Keeps .loose (start.store.Around env)) :=
    Store.confined_of_reaches fun value hreach ↦
      absurd hreach (machine.store.not_reaches_addFrame value)
  have henv : start.store.Around env env := .inl rfl
  have hwhen : Regime.loose = .loose ∨ (Node.program nodes).disciplined false = true := .inl rfl
  have hagrees := watched_program nodes registry depth henv hwhen
  exact (settled_of_agrees hagrees hstore).imp And.left And.right

/-- A return statement wraps the wrapped result of a conditional. The call takes off one wrapper and
gives what is left, which ends the program in front of its last statement. -/
theorem returned_of_call :
    let text := "let f = fn() \x7b return if (true) \x7b return 1; \x7d; \x7d; f(); 2"
    let statements := (parse text).statements
    let result (run : Address → Run (Option Value)) : Option Value :=
      (Machine.initial.perform (newEnvironment >>= run)).1.toOption.join
    (parse text).errors = [] ∧ statements.length = 3 ∧
      (result fun env ↦ Evaluation.statements .standard (apply .standard maxDepth) env
        (statements.take 2) none).map Value.type = some .returned ∧
      (result fun env ↦ evaluateText .standard env text).map Value.inspect = some "1" := by
  decide +kernel

end Evaluation

end MonkeyLang
