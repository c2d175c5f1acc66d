import MonkeyLang.Node.Equality
import MonkeyLang.Proofs.Evaluation.Depth
import MonkeyLang.Proofs.Evaluation.InTurn
import MonkeyLang.Proofs.Evaluation.Rules
import MonkeyLang.Proofs.Session.Again

/-!
A program that maps a function over an array by going through it from its first element on: the
function is called on every element once, in their order, and nothing else comes of the program than
what comes of these calls.
-/

namespace MonkeyLang

/-- From the one machine to the other nothing was written and no frame has changed, and the calls
that were made are these. Every call is logged. -/
structure Machine.OnlyCalls (before : Machine) (calls : List LogRecord) (after : Machine) :
    Prop where
  log : after.log.toList = before.log.toList ++ calls
  output : after.output = before.output
  frames : before.store.Extends after.store
  created : before.created ≤ after.created

theorem Machine.OnlyCalls.refl (machine : Machine) : machine.OnlyCalls [] machine :=
  ⟨(List.append_nil _).symm, rfl, fun _ _ h ↦ h, Nat.le_refl _⟩

theorem Machine.OnlyCalls.called {before after : Machine} {calls : List LogRecord} {created : Nat}
    (h : before.OnlyCalls calls after) (call : LogRecord) (hcreated : after.created ≤ created) :
    before.OnlyCalls (calls ++ [call])
      { after with created := created, log := after.log.push call } where
  log := by rw [Array.toList_push, h.log, List.append_assoc]
  output := h.output
  frames := h.frames
  created := Nat.le_trans h.created hcreated

namespace Traversal

open Node Evaluation

section Program

/-- The condition and the branches of the function that goes through the array:
`if (len(arr) == 0) \x7b accumulated \x7d else \x7b
iter(rest(arr), push(accumulated, f(first(arr)))); \x7d` -/
def step : Node :=
  .cond ⟨.kwIf, "if"⟩
    (.infixOp ⟨.eq, "=="⟩ (applied "len" [word "arr"]) "==" (.int ⟨.int, "0"⟩ 0))
    (braced [.exprStmt ⟨.ident, "accumulated"⟩ (word "accumulated")])
    (some (braced [.exprStmt ⟨.ident, "iter"⟩ (applied "iter"
      [applied "rest" [word "arr"],
        applied "push" [word "accumulated", applied "f" [applied "first" [word "arr"]]]])]))

def iterCode : Node := braced [.exprStmt ⟨.kwIf, "if"⟩ step]

def mapCode : Node :=
  braced [.letStmt ⟨.kwLet, "let"⟩ (word "iter")
      (.fn ⟨.kwFn, "fn"⟩ [word "arr", word "accumulated"] iterCode),
    .exprStmt ⟨.ident, "iter"⟩ (applied "iter" [word "arr", .array ⟨.lbracket, "["⟩ []])]

/-- The statement that defines `map`. -/
def definition : Node :=
  .letStmt ⟨.kwLet, "let"⟩ (word "map") (.fn ⟨.kwFn, "fn"⟩ [word "arr", word "f"] mapCode)

/-- The program that defines `map`, does something more and applies it then. -/
def program (prelude : List Node) (collection function : String) : Node :=
  .program (definition :: prelude ++
    [.exprStmt ⟨.ident, "map"⟩ (applied "map" [word collection, word function])])

/-- The builtin functions in the program. -/
def builtins : List Builtin := [.len, .first, .rest, .push]

def iter (id : Nat) (env : Address) : Value :=
  .function id [word "arr", word "accumulated"] iterCode env

def map (id : Nat) (env : Address) : Value := .function id [word "arr", word "f"] mapCode env

/-- The code of a function that doubles a number. -/
def doubleCode : Node :=
  braced [.exprStmt ⟨.ident, "x"⟩
    (.infixOp ⟨.asterisk, "*"⟩ (word "x") "*" (.int ⟨.int, "2"⟩ 2))]

/-- Statements that bind an array and this function. -/
def bindings : List Node :=
  [.letStmt ⟨.kwLet, "let"⟩ (word "a")
      (.array ⟨.lbracket, "["⟩ [.int ⟨.int, "1"⟩ 1, .int ⟨.int, "2"⟩ 2, .int ⟨.int, "3"⟩ 3]),
    .letStmt ⟨.kwLet, "let"⟩ (word "double") (.fn ⟨.kwFn, "fn"⟩ [word "x"] doubleCode)]

/-- The source of such a program. -/
example : (parse "
let map = fn(arr, f) \x7b
  let iter = fn(arr, accumulated) \x7b
    if (len(arr) == 0) \x7b
      accumulated
    \x7d else \x7b
      iter(rest(arr), push(accumulated, f(first(arr))));
    \x7d
  \x7d;
  iter(arr, []);
\x7d;
let a = [1, 2, 3];
let double = fn(x) \x7b x * 2 \x7d;
map(a, double);
").program == program bindings "a" "double" := by decide +kernel

end Program

/-- The function gives no fault on an argument. -/
def Yields (registry : Registry) (depth : Nat) (function argument : Value) (machine : Machine) :
    Prop :=
  ∃ value after, apply registry depth function [argument] machine = .ok value after ∧
    value.isError = false

/-- The function was called on each argument in turn, and gave these values. Whatever else was
called is part of these calls, or is the function that goes through the array or a builtin function
that this calls. -/
inductive Visits (registry : Registry) (depth : Nat) (function : Value) :
    List Value → List Value → Machine → Machine → Prop
  | done {before after : Machine} :
      before.OnlyCalls [.applyingFunction 2, .applyingBuiltin .len 1] after →
      Visits registry depth function [] [] before after
  | next {argument value : Value} {arguments values : List Value}
      {before calling returned ready after : Machine} :
      before.OnlyCalls [.applyingFunction 2, .applyingBuiltin .len 1, .applyingBuiltin .rest 1,
        .applyingBuiltin .first 1] calling →
      apply registry (depth + arguments.length) function [argument] calling = .ok value returned →
      returned.OnlyCalls [.applyingBuiltin .push 2] ready →
      Visits registry depth function arguments values ready after →
      Visits registry depth function (argument :: arguments) (value :: values) before after

/-- What the function that goes through the array finds where it was made. -/
structure Inside (function : Value) (id : Nat) (env : Address) (store : Store) : Prop where
  rooted : store.Rooted env
  function : store.get? env "f" = some function
  iter : store.get? env "iter" = some (iter id env)
  builtin : ∀ builtin ∈ builtins, store.get? env builtin.name = none

variable {registry : Registry} {depth : Nat} {function argument : Value} {machine : Machine}

section Calls

theorem Visits.length_eq {arguments values : List Value} {before after : Machine}
    (h : Visits registry depth function arguments values before after) :
    values.length = arguments.length := by
  induction h with
  | done => rfl
  | next _ _ _ _ ih => rw [List.length_cons, List.length_cons, ih]

/-- A call that has an answer has the same one under every greater bound. -/
theorem apply_deeper {callee value : Value} {args : List Value} {after : Machine}
    (h : apply registry depth callee args machine = .ok value after) (more : Nat) :
    apply registry (depth + more) callee args machine = .ok value after := by
  have hplain : (Effects.plain registry).apply depth callee args =
      apply registry depth callee args :=
    (Effects.plainCongruence registry).rel_apply depth callee args
  have hcuts := (apply_cuts registry depth more callee args).1 machine
  rw [hplain, h] at hcuts
  exact hcuts

/-- A call that gives no fault on a machine gives none after that has grown. Its value may have
other numbers of creation and frames in it. -/
theorem Yields.again {later : Machine} (hclosed : machine.Closed)
    (hfunction : function.Known machine.extent) (hargument : argument.Known machine.extent)
    (hframes : machine.store.Extends later.store) (hcreated : machine.created ≤ later.created)
    (h : Yields registry depth function argument machine) (more : Nat) :
    Yields registry (depth + more) function argument later := by
  obtain ⟨value, after, hcall, hproper⟩ := h
  have hdeeper := apply_deeper hcall more
  have hsimulates : Run.Simulates (.again machine later) (Value.Like (.again machine later))
      (apply registry (depth + more) function [argument])
      (apply registry (depth + more) function [argument]) :=
    simulates_apply (fun _ _ ↦ rfl) _ hfunction.like_again (.cons hargument.like_again .nil)
  have hend := hsimulates machine later (hclosed.like_again hframes hcreated)
  rcases hend.cases with ⟨a, _, value', after', hr, hr', hvalue, -⟩ | ⟨_, _, _, hr, -⟩
  · rw [hdeeper] at hr
    cases hr
    exact ⟨value', after', hr', hvalue.isError ▸ hproper⟩
  · rw [hdeeper] at hr
    cases hr

theorem Inside.extends {id : Nat} {env : Address} {store after : Store}
    (h : Inside function id env store) (hframes : store.Extends after) :
    Inside function id env after where
  rooted := h.rooted.extends hframes
  function := (hframes.get?_eq h.rooted "f").trans h.function
  iter := (hframes.get?_eq h.rooted "iter").trans h.iter
  builtin builtin hb := (hframes.get?_eq h.rooted builtin.name).trans (h.builtin builtin hb)

end Calls

section Step

variable {array accumulated : Value} {id arrayId : Nat} {env frame : Address}

/-- What the function that goes through the array finds from its own frame. -/
structure Sees (function array accumulated : Value) (id : Nat) (env frame : Address)
    (store : Store) : Prop where
  array : store.get? frame "arr" = some array
  accumulated : store.get? frame "accumulated" = some accumulated
  function : store.get? frame "f" = some function
  iter : store.get? frame "iter" = some (iter id env)
  builtin : ∀ builtin ∈ builtins, store.get? frame builtin.name = none

theorem Inside.sees {store : Store} (h : Inside function id env store) (array accumulated : Value) :
    Sees function array accumulated id env store.nextAddress
      (store.call env [("arr", array), ("accumulated", accumulated)]) where
  array := by rw [Store.get?_call]; rfl
  accumulated := by rw [Store.get?_call]; rfl
  function := by rw [Store.get?_call]; exact h.function
  iter := by rw [Store.get?_call]; exact h.iter
  builtin builtin hb := by
    rw [Store.get?_call]
    have hnone := h.builtin builtin hb
    simp only [builtins, List.mem_cons, List.not_mem_nil, or_false] at hb
    rcases hb with rfl | rfl | rfl | rfl <;> exact hnone

/-- The machine when the body of the function that goes through the array is evaluated. -/
def entered (machine : Machine) (env : Address) (array accumulated : Value) : Machine :=
  { machine with
    store := machine.store.call env [("arr", array), ("accumulated", accumulated)]
    log := machine.log.push (.applyingFunction 2) }

theorem onlyCalls_entered (machine : Machine) (env : Address) (array accumulated : Value) :
    machine.OnlyCalls [.applyingFunction 2] (entered machine env array accumulated) where
  log := Array.toList_push
  output := rfl
  frames := machine.store.call_extends env [("arr", array), ("accumulated", accumulated)]
  created := Nat.le_refl _

theorem apply_iter (array accumulated : Value) (id : Nat) (env : Address) (machine : Machine) :
    apply registry (depth + 1) (iter id env) [array, accumulated] machine =
      (Value.unwrap <$> expr registry (apply registry depth) machine.store.nextAddress step)
        (entered machine env array accumulated) := by
  refine (apply_function depth id [("arr", array), ("accumulated", accumulated)] iterCode env
    machine).trans ?_
  rw [iterCode, body_braced, statements_exprStmt, ← comp_map]
  rfl

variable (hregistry : ∀ builtin ∈ builtins, registry.find? builtin.name = some builtin)

include hregistry

theorem expr_isEmpty {elements : List Value}
    (h : Sees function (.array arrayId elements) accumulated id env frame machine.store) :
    expr registry (apply registry depth) frame
      (.infixOp ⟨.eq, "=="⟩ (applied "len" [word "arr"]) "==" (.int ⟨.int, "0"⟩ 0)) machine =
      .ok (.boolean (elements.length = 0))
        { machine with log := machine.log.push (.applyingBuiltin .len 1) } := by
  have hlen : expr registry (apply registry depth) frame (applied "len" [word "arr"]) machine =
      .ok (.integer elements.length)
        { machine with log := machine.log.push (.applyingBuiltin .len 1) } :=
    expr_applied_builtin .len (h.builtin .len (by decide)) (hregistry .len (by decide))
      (exprs_singleton (expr_word h.array) rfl)
  rw [expr_infixOp hlen rfl rfl rfl]
  simp [Value.applyInfix, Value.integerInfix]

/-- At the end of the array the result is what has been accumulated. -/
theorem expr_step_nil
    (h : Sees function (.array arrayId []) accumulated id env frame machine.store) :
    expr registry (apply registry depth) frame step machine =
      .ok accumulated { machine with log := machine.log.push (.applyingBuiltin .len 1) } := by
  refine (expr_cond (expr_isEmpty hregistry h) rfl rfl).trans ?_
  exact expr_word h.accumulated

/-- At an element the function is called, and then the rest of the array is gone through. -/
theorem expr_step_cons {value : Value} {others values : List Value} {accumulatedId : Nat}
    {returned : Machine} (hfunction : function.isError = false)
    (hargument : argument.isError = false)
    (h : Sees function (.array arrayId (argument :: others)) (.array accumulatedId values) id env
      frame machine.store)
    (hcall : apply registry depth function [argument]
      { machine with
        created := machine.created + 1
        log := ((machine.log.push (.applyingBuiltin .len 1)).push (.applyingBuiltin .rest 1)).push
          (.applyingBuiltin .first 1) } = .ok value returned)
    (hvalue : value.isError = false) :
    expr registry (apply registry depth) frame step machine =
      apply registry depth (iter id env)
        [.array machine.created others, .array returned.created (values ++ [value])]
        { returned with
          created := returned.created + 1
          log := returned.log.push (.applyingBuiltin .push 2) } := by
  let counted : Machine := { machine with log := machine.log.push (.applyingBuiltin .len 1) }
  let shortened : Machine := { counted with
    created := machine.created + 1, log := counted.log.push (.applyingBuiltin .rest 1) }
  have hcounted : Sees function _ (.array accumulatedId values) id env frame counted.store := h
  have hshortened : Sees function _ (.array accumulatedId values) id env frame shortened.store := h
  have hrest : expr registry (apply registry depth) frame (applied "rest" [word "arr"]) counted =
      .ok (.array machine.created others) shortened :=
    expr_applied_builtin .rest (hcounted.builtin .rest (by decide)) (hregistry .rest (by decide))
      (exprs_singleton (expr_word hcounted.array) rfl)
  have hfirst : expr registry (apply registry depth) frame (applied "first" [word "arr"])
      shortened = .ok argument
        { shortened with log := shortened.log.push (.applyingBuiltin .first 1) } :=
    expr_applied_builtin .first (hshortened.builtin .first (by decide))
      (hregistry .first (by decide)) (exprs_singleton (expr_word hshortened.array) rfl)
  have hcalled : expr registry (apply registry depth) frame
      (applied "f" [applied "first" [word "arr"]]) shortened = .ok value returned :=
    (expr_applied (expr_word hshortened.function) hfunction
      (exprs_singleton hfirst hargument)).trans hcall
  have hpush : expr registry (apply registry depth) frame
      (applied "push" [word "accumulated", applied "f" [applied "first" [word "arr"]]]) shortened =
      .ok (.array returned.created (values ++ [value])) { returned with
        created := returned.created + 1, log := returned.log.push (.applyingBuiltin .push 2) } :=
    expr_applied_builtin .push (hshortened.builtin .push (by decide))
      (hregistry .push (by decide))
      (exprs_cons (expr_word hshortened.accumulated) rfl (exprs_singleton hcalled hvalue))
  refine (expr_cond (expr_isEmpty hregistry h) rfl rfl).trans ?_
  exact expr_applied (expr_word hcounted.iter) rfl
    (exprs_cons hrest rfl (exprs_singleton hpush rfl))

end Step

section Runs

variable {id : Nat} {env : Address} {elements : List Value}

/-- From the machine on, the function may be called on the arguments at any time. -/
def MayVisit (registry : Registry) (depth : Nat) (function : Value) (arguments : List Value)
    (start : Machine) : Prop :=
  ∀ argument ∈ arguments, ∀ later : Machine, start.store.Extends later.store →
    start.created ≤ later.created → ∀ more,
      Yields registry (depth + more) function argument later

variable (hregistry : ∀ builtin ∈ builtins, registry.find? builtin.name = some builtin)
  (hfunction : function.isError = false) (hdepth : 0 < depth)

include hregistry hfunction hdepth

/-- By induction on the array, each of whose elements is visited in a call of its own. -/
theorem apply_iter_visits {start before : Machine} (arrayId accumulatedId : Nat)
    (values : List Value) (helements : ∀ element ∈ elements, element.isError = false)
    (hvisit : MayVisit registry depth function elements start)
    (hframes : start.store.Extends before.store) (hcreated : start.created ≤ before.created)
    (hinside : Inside function id env before.store) :
    ∃ results resultId after,
      apply registry (depth + elements.length) (iter id env)
        [.array arrayId elements, .array accumulatedId values] before =
          .ok (.array resultId (values ++ results)) after ∧
      Visits registry depth function elements results before after := by
  induction elements generalizing before arrayId accumulatedId values with
  | nil =>
    obtain ⟨depth, rfl⟩ := Nat.exists_eq_add_one_of_ne_zero (Nat.ne_of_gt hdepth)
    let inner := entered before env (.array arrayId []) (.array accumulatedId values)
    have hsees := hinside.sees (.array arrayId []) (.array accumulatedId values)
    refine ⟨[], accumulatedId, { inner with log := inner.log.push (.applyingBuiltin .len 1) }, ?_,
      .done ((onlyCalls_entered ..).called _ (Nat.le_refl _))⟩
    rw [List.length_nil, Nat.add_zero, apply_iter, Run.run_map, List.append_nil]
    have hstep : expr registry (apply registry depth) before.store.nextAddress step inner = _ :=
      expr_step_nil hregistry hsees
    rw [hstep]
    rfl
  | cons argument others ih =>
    obtain ⟨hargument, hproper⟩ := List.forall_mem_cons.mp helements
    obtain ⟨hfirst, hrest⟩ := List.forall_mem_cons.mp hvisit
    let inner := entered before env (.array arrayId (argument :: others))
      (.array accumulatedId values)
    have hsees := hinside.sees (.array arrayId (argument :: others)) (.array accumulatedId values)
    let calling : Machine := { inner with
      created := inner.created + 1
      log := ((inner.log.push (.applyingBuiltin .len 1)).push (.applyingBuiltin .rest 1)).push
        (.applyingBuiltin .first 1) }
    have hcalling : before.OnlyCalls [.applyingFunction 2, .applyingBuiltin .len 1,
        .applyingBuiltin .rest 1, .applyingBuiltin .first 1] calling :=
      (((onlyCalls_entered ..).called _ (Nat.le_refl _)).called _ (Nat.le_succ _)).called _
        (Nat.le_refl _)
    obtain ⟨value, returned, hcall, hvalue⟩ := hfirst calling
      (hframes.trans hcalling.frames) (Nat.le_trans hcreated hcalling.created) others.length
    let ready : Machine := { returned with
      created := returned.created + 1, log := returned.log.push (.applyingBuiltin .push 2) }
    have hready : returned.OnlyCalls [.applyingBuiltin .push 2] ready :=
      (Machine.OnlyCalls.refl returned).called _ (Nat.le_succ _)
    have hgrown : before.store.Extends ready.store := by
      have hcalled := apply_extends registry (depth + others.length) function [argument] calling
      rw [Run.behind_ok hcall] at hcalled
      exact hcalling.frames.trans hcalled
    have hcreated' : before.created ≤ ready.created := by
      have hcalled := apply_creates registry (depth + others.length) function [argument] calling
      rw [Run.behind_ok hcall] at hcalled
      exact Nat.le_trans hcalling.created (Nat.le_trans hcalled hready.created)
    obtain ⟨results, resultId, after, hothers, hvisits⟩ := ih inner.created returned.created
      (values ++ [value]) hproper hrest (hframes.trans hgrown) (Nat.le_trans hcreated hcreated')
      (hinside.extends hgrown)
    refine ⟨value :: results, resultId, after, ?_, .next hcalling hcall hready hvisits⟩
    have hstep : expr registry (apply registry (depth + others.length)) before.store.nextAddress step
        inner = _ := expr_step_cons hregistry hfunction hargument hsees hcall hvalue
    rw [List.length_cons, ← Nat.add_assoc, apply_iter, Run.run_map, hstep, hothers,
      List.append_assoc]
    rfl

end Runs

section Map

variable {env : Address}

/-- The machine when the function that goes through the array has been made and bound. -/
def prepared (machine : Machine) (env : Address) (array function : Value) : Machine :=
  { machine with
    store := (machine.store.call env [("arr", array), ("f", function)]).bind
      machine.store.nextAddress "iter" (iter machine.created machine.store.nextAddress)
    created := machine.created + 1
    log := machine.log.push (.applyingFunction 2) }

/-- The machine when this function is called for the first time, with an empty array. -/
def started (machine : Machine) (env : Address) (array function : Value) : Machine :=
  { prepared machine env array function with created := machine.created + 2 }

theorem onlyCalls_started (machine : Machine) (env : Address) (array function : Value) :
    machine.OnlyCalls [.applyingFunction 2] (started machine env array function) where
  log := Array.toList_push
  output := rfl
  frames := (machine.store.call_extends env [("arr", array), ("f", function)]).bind_new
    (Nat.le_refl _) _ _
  created := Nat.le_add_right ..

theorem get?_prepared (machine : Machine) (env : Address) (array function : Value) (name : String) :
    (prepared machine env array function).store.get? machine.store.nextAddress name =
      if "iter" = name then some (iter machine.created machine.store.nextAddress)
      else (OrderedMap.last? name [("arr", array), ("f", function)]).or
        (machine.store.get? env name) := by
  have hnew : machine.store.nextAddress <
      (machine.store.call env [("arr", array), ("f", function)]).nextAddress := by
    rw [Store.nextAddress_call]
    exact Nat.lt_succ_self _
  rw [prepared, Store.get?_bind hnew, Store.get?_call]

theorem inside_prepared (array : Value) (hrooted : machine.store.Rooted env)
    (hbuiltin : ∀ builtin ∈ builtins, machine.store.get? env builtin.name = none) :
    Inside function machine.created machine.store.nextAddress
      (prepared machine env array function).store where
  rooted := (hrooted.call _).bind _ _ _
  function := get?_prepared machine env array function "f"
  iter := get?_prepared machine env array function "iter"
  builtin builtin hb := by
    have hnone := hbuiltin builtin hb
    simp only [builtins, List.mem_cons, List.not_mem_nil, or_false] at hb
    rcases hb with rfl | rfl | rfl | rfl <;> exact (get?_prepared ..).trans hnone

/-- To apply `map` is to go through the array, with an empty array to begin with. -/
theorem apply_map (id : Nat) (env : Address) {array : Value} (harray : array.isError = false)
    (machine : Machine) :
    apply registry (depth + 1) (map id env) [array, function] machine =
      (Value.unwrap <$> apply registry depth (iter machine.created machine.store.nextAddress)
        [array, .array (machine.created + 1) []]) (started machine env array function) := by
  let frame := machine.store.nextAddress
  have hcall : expr registry (apply registry depth) frame
      (applied "iter" [word "arr", .array ⟨.lbracket, "["⟩ []])
      (prepared machine env array function) =
      apply registry depth (iter machine.created frame) [array, .array (machine.created + 1) []]
        (started machine env array function) :=
    expr_applied (expr_word (get?_prepared machine env array function "iter")) rfl
      (exprs_cons (expr_word (get?_prepared machine env array function "arr")) harray
        (exprs_singleton rfl rfl))
  let called : Machine := { machine with
    store := machine.store.call env [("arr", array), ("f", function)]
    log := machine.log.push (.applyingFunction 2) }
  have hiter : expr registry (apply registry depth) frame
      (.fn ⟨.kwFn, "fn"⟩ [word "arr", word "accumulated"] iterCode) called =
      .ok (iter machine.created frame) { called with created := machine.created + 1 } := by
    rw [expr]
    rfl
  have hbody : body registry (apply registry depth) frame mapCode called =
      (some <$> expr registry (apply registry depth) frame
        (applied "iter" [word "arr", .array ⟨.lbracket, "["⟩ []]))
        (prepared machine env array function) := by
    rw [mapCode, body_braced, statements_letStmt hiter rfl, statements_exprStmt]
    rfl
  refine (apply_function depth id [("arr", array), ("f", function)] mapCode env machine).trans ?_
  change (_ <$> body registry (apply registry depth) frame mapCode) called = _
  rw [Run.run_map, hbody, ← Run.run_map, ← comp_map, Run.run_map, hcall, ← Run.run_map]
  rfl

end Map

section Closed

variable {env : Address} {name : String} {value : Value} {after : Machine}

theorem rooted_of_closed (hclosed : machine.Closed) (henv : env < machine.store.nextAddress) :
    machine.store.Rooted env := by
  obtain ⟨frame, hframe⟩ := Option.isSome_iff_exists.mp (Store.isSome_frame?.mpr henv)
  intro address hm
  rw [Store.chain, hframe] at hm
  rcases List.mem_cons.mp hm with rfl | hm
  · exact henv
  · have hmem : frame ∈ machine.store.frames.toList :=
      List.mem_of_getElem? (by rwa [Array.getElem?_toList])
    exact hclosed.outer frame hmem address hm

theorem known_of_lookup (hclosed : machine.Closed)
    (h : lookup registry env name machine = .ok value after) : value.Known machine.extent := by
  rw [lookup_eq] at h
  cases hfound : machine.store.get? env name with
  | some found =>
    rw [hfound] at h
    cases h
    exact hclosed.values _ (Store.mem_values_of_get? hfound)
  | none =>
    rw [hfound] at h
    cases hregistry : registry.find? name with
    | some builtin =>
      rw [hregistry] at h
      cases h
      exact List.forall_mem_singleton.mpr ⟨nofun, nofun⟩
    | none =>
      rw [hregistry] at h
      cases h
      exact List.forall_mem_singleton.mpr ⟨nofun, nofun⟩

theorem known_element {extent : Extent} {id : Nat} {elements : List Value} {element : Value}
    (h : (Value.array id elements).Known extent) (hm : element ∈ elements) :
    element.Known extent := fun inner hinner ↦
  h inner (Value.mem_nested.mpr (.inr ⟨element, hm, hinner⟩))

end Closed

section Application

/-- In a closed machine, as sessions leave them, `map` can be applied: the names stand for an array
without faults and for a function that gives none on its elements, and no builtin function is
bound anew. -/
structure Ready (registry : Registry) (depth : Nat) (env : Address) (collection name : String)
    (arrayId : Nat) (elements : List Value) (function : Value) (machine : Machine) : Prop where
  closed : machine.Closed
  builtin : ∀ builtin ∈ builtins, machine.store.get? env builtin.name = none
  array : lookup registry env collection machine = .ok (.array arrayId elements) machine
  callee : lookup registry env name machine = .ok function machine
  proper : function.isError = false
  proper_element : ∀ element ∈ elements, element.isError = false
  yields : ∀ element ∈ elements, Yields registry depth function element machine

variable {env : Address} {collection name : String} {id arrayId : Nat} {elements : List Value}

theorem Ready.mayVisit
    (h : Ready registry depth env collection name arrayId elements function machine) :
    MayVisit registry depth function elements machine := by
  intro element hm later hframes hcreated more
  have harray := known_of_lookup h.closed h.array
  exact (h.yields element hm).again h.closed (known_of_lookup h.closed h.callee)
    (known_element harray hm) hframes hcreated more

variable (hregistry : ∀ builtin ∈ builtins, registry.find? builtin.name = some builtin)
  (hdepth : 0 < depth)

include hregistry hdepth

theorem apply_map_visits (henv : env < machine.store.nextAddress)
    (h : Ready registry depth env collection name arrayId elements function machine) :
    ∃ results resultId after,
      apply registry (depth + elements.length + 1) (map id env)
        [.array arrayId elements, function] machine = .ok (.array resultId results) after ∧
      Visits registry depth function elements results
        (started machine env (.array arrayId elements) function) after := by
  have hstarted := onlyCalls_started machine env (.array arrayId elements) function
  obtain ⟨results, resultId, after, happly, hvisits⟩ := apply_iter_visits hregistry h.proper
    hdepth arrayId (machine.created + 1) [] h.proper_element h.mayVisit hstarted.frames
    hstarted.created (inside_prepared _ (rooted_of_closed h.closed henv) h.builtin)
  refine ⟨results, resultId, after, ?_, hvisits⟩
  rw [apply_map id env rfl, Run.run_map, happly]
  rfl

end Application

section Whole

variable {env : Address} {prelude : List Node} {collection name : String} {arrayId : Nat}
  {elements : List Value} {last : Option Value} {ready : Machine}

/-- The definition binds `map`, and what comes after it does not change that. -/
theorem get?_map (machine : Machine) (henv : env < machine.store.nextAddress)
    (hprelude : "map" ∉ (Node.program prelude).letNames)
    (hrun : statements registry (apply registry depth) env (definition :: prelude) none machine =
      .ok last ready) :
    env < ready.store.nextAddress ∧
      ready.store.get? env "map" = some (map machine.created env) := by
  let defined : Machine := { machine with
    store := machine.store.bind env "map" (map machine.created env)
    created := machine.created + 1 }
  have hmake : expr registry (apply registry depth) env
      (.fn ⟨.kwFn, "fn"⟩ [word "arr", word "f"] mapCode) machine =
      .ok (map machine.created env) { machine with created := machine.created + 1 } := by
    rw [expr]
    rfl
  have hdefined : env < defined.store.nextAddress := by
    rw [Store.nextAddress_bind]
    exact henv
  have hrest : statements registry (apply registry depth) env prelude none defined =
      .ok last ready := (statements_letStmt hmake rfl).symm.trans hrun
  have hchanges : Run.Keeps (Machine.ChangesOnly env (Node.program prelude).letNames)
      (statements registry (apply registry depth) env prelude none) :=
    keeps_statements Run.freshId_extends.changesOnly
      (fun callee args ↦ (apply_extends registry depth callee args).changesOnly) prelude none
      fun target ht value ↦ bindTo_changesOnly (mem_letNames ht) value
  have hkept := hchanges defined
  rw [Run.behind_ok hrest] at hkept
  refine ⟨hkept.lt_nextAddress hdefined, Store.get?_of_local? ?_⟩
  rw [hkept.local?_eq hdefined hprelude]
  exact Store.local?_bind_self henv ..

/-- The program calls the function once on each element of the array, in their order, and its
result is an array of what these calls gave. No frame is changed by that, and by the program no
binding but those that its own let statements bind. -/
theorem program_maps
    (hregistry : ∀ builtin ∈ builtins, registry.find? builtin.name = some builtin)
    (hdepth : 0 < depth) (henv : env < machine.store.nextAddress)
    (hprelude : "map" ∉ (Node.program prelude).letNames)
    (hrun : statements registry (apply registry (depth + elements.length + 1)) env
      (definition :: prelude) none
      { machine with log := machine.log.push (.evaluatingProgram (prelude.length + 2)) } =
        .ok last ready)
    (hlast : last.any Value.endsSequence = false)
    (h : Ready registry depth env collection name arrayId elements function ready) :
    ∃ results resultId first after,
      (program prelude collection name).evaluate registry (depth + elements.length + 1) env
        machine = .ok (some (.array resultId results)) after ∧
      results.length = elements.length ∧
      ready.OnlyCalls [.applyingFunction 2] first ∧
      Visits registry depth function elements results first after ∧
      ready.store.Extends after.store ∧
      lookup registry env collection after = .ok (.array arrayId elements) after ∧
      machine.store.ChangesOnly env (program prelude collection name).letNames after.store := by
  let begun : Machine :=
    { machine with log := machine.log.push (.evaluatingProgram (prelude.length + 2)) }
  obtain ⟨hthere, hmap⟩ := get?_map begun henv hprelude hrun
  obtain ⟨results, resultId, after, happly, hvisits⟩ :=
    apply_map_visits hregistry hdepth hthere h
  have hcall : expr registry (apply registry (depth + elements.length + 1)) env
      (applied "map" [word collection, word name]) ready =
      .ok (.array resultId results) after := by
    have harray : expr registry (apply registry (depth + elements.length + 1)) env
        (word collection) ready = .ok (.array arrayId elements) ready := by
      rw [expr_word_eq, h.array]
    have hcallee : expr registry (apply registry (depth + elements.length + 1)) env
        (word name) ready = .ok function ready := by rw [expr_word_eq, h.callee]
    exact (expr_applied (expr_word hmap) rfl
      (exprs_cons harray rfl (exprs_singleton hcallee h.proper))).trans happly
  have heval : (program prelude collection name).evaluate registry (depth + elements.length + 1)
      env machine = .ok (some (.array resultId results)) after := by
    have hstatements : statements registry (apply registry (depth + elements.length + 1)) env
        (definition :: prelude ++
          [.exprStmt ⟨.ident, "map"⟩ (applied "map" [word collection, word name])]) none begun =
        .ok (some (.array resultId results)) after := by
      rw [statements_append _ _ rfl, Run.run_bind, hrun]
      simp only [hlast, Bool.false_eq_true, if_false]
      rw [statements_exprStmt, Run.run_map, hcall]
    rw [program, evaluate_program, List.length_append, List.length_cons, List.length_singleton,
      Run.run_bind]
    change (Option.map Value.unwrap <$> _ : Run (Option Value)) begun = _
    rw [Run.run_map, hstatements]
    rfl
  have hframes : ready.store.Extends after.store := by
    have hcalled := apply_extends registry (depth + elements.length + 1)
      (map machine.created env) [.array arrayId elements, function] ready
    rw [Run.behind_ok happly] at hcalled
    exact hcalled
  refine ⟨results, resultId, _, after, heval, hvisits.length_eq, onlyCalls_started .., hvisits,
    hframes, ?_, ?_⟩
  · have hcollection := h.array
    rw [lookup_eq] at hcollection ⊢
    rw [hframes.get?_eq (rooted_of_closed h.closed hthere),
      (EStateM.Result.ok.inj hcollection).1]
  · have hchanges := evaluate_changesOnly (program prelude collection name) registry
      (depth + elements.length + 1) env machine
    rw [Run.behind_ok heval] at hchanges
    exact hchanges

/-- The program of the example above, in a new environment. -/
theorem program_maps_doubling :
    let machine : Machine := ⟨Store.empty.addFrame [], 0, "", #[]⟩
    let elements : List Value := [.integer 1, .integer 2, .integer 3]
    let double : Value := .function 2 [word "x"] doubleCode 0
    let ready : Machine :=
      ⟨⟨#[⟨[("map", map 0 0), ("a", .array 1 elements), ("double", double)], []⟩]⟩, 3, "",
        #[.evaluatingProgram 4]⟩
    ∃ results resultId first after,
      (program bindings "a" "double").evaluate .standard 5 0 machine =
        .ok (some (.array resultId results)) after ∧
      results.length = 3 ∧
      ready.OnlyCalls [.applyingFunction 2] first ∧
      Visits .standard 1 double elements results first after ∧
      ready.store.Extends after.store ∧
      lookup .standard 0 "a" after = .ok (.array 1 elements) after ∧
      machine.store.ChangesOnly 0 (program bindings "a" "double").letNames after.store := by
  intro machine elements double ready
  have hready : Ready .standard 1 0 "a" "double" 1 elements double ready := by
    refine ⟨by decide +kernel, by decide, rfl, rfl, rfl, by decide, fun element hm ↦ ?_⟩
    simp only [elements, List.mem_cons, List.not_mem_nil, or_false] at hm
    rcases hm with rfl | rfl | rfl <;> exact ⟨.integer _, _, rfl, rfl⟩
  have hrun : statements .standard (apply .standard (1 + elements.length + 1)) 0
      (definition :: bindings) none
      { machine with log := machine.log.push (.evaluatingProgram (bindings.length + 2)) } =
        .ok none ready := rfl
  have hmaps := program_maps (by decide) Nat.one_pos (by decide) (by decide) hrun rfl hready
  exact hmaps

end Whole

end Traversal

end MonkeyLang
