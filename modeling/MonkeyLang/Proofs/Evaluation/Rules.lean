import MonkeyLang.Evaluation
import MonkeyLang.Proofs.Run
import MonkeyLang.Proofs.Store.Scope

/-!
Rules to evaluate trees by: what a node gives, once it is known what its parts give.
-/

namespace MonkeyLang

/-- A name as it is read. -/
def Node.word (name : String) : Node := .ident ⟨.ident, name⟩ name

/-- The call of what a name stands for. -/
def Node.applied (name : String) (args : List Node) : Node := .call ⟨.lparen, "("⟩ (word name) args

/-- Several statements in braces. -/
def Node.braced (statements : List Node) : Node := .block ⟨.lbrace, "\x7b"⟩ statements

namespace Evaluation

open Run

variable {registry : Registry} {apply : Value → List Value → Run Value} {env : Address}
  {name : String} {token : Token} {node : Node} {nodes : List Node} {value test : Value}
  {values : List Value} {machine mid after : Machine}

theorem lookup_eq (registry : Registry) (env : Address) (name : String) (machine : Machine) :
    lookup registry env name machine = .ok ((machine.store.get? env name).getD
      ((registry.find? name).elim (.error (.identifierNotFound name)) .builtin)) machine := by
  have hfound : lookup? env name machine = .ok (machine.store.get? env name) machine := rfl
  rw [lookup, run_bind, hfound]
  cases machine.store.get? env name with
  | some value => rfl
  | none => cases registry.find? name <;> rfl

theorem expr_word_eq (name : String) :
    expr registry apply env (.word name) = lookup registry env name := by
  rw [Node.word, expr]

theorem expr_word (h : machine.store.get? env name = some value) :
    expr registry apply env (.word name) machine = .ok value machine := by
  rw [expr_word_eq, lookup_eq, h]
  rfl

theorem expr_word_builtin {function : Builtin} (h : machine.store.get? env name = none)
    (hregistry : registry.find? name = some function) :
    expr registry apply env (.word name) machine = .ok (.builtin function) machine := by
  rw [expr_word_eq, lookup_eq, h, hregistry]
  rfl

theorem exprs_cons (h : expr registry apply env node machine = .ok value mid)
    (hproper : value.isError = false)
    (hothers : exprs registry apply env nodes mid = .ok (.ok values) after) :
    exprs registry apply env (node :: nodes) machine = .ok (.ok (value :: values)) after := by
  rw [exprs, run_operand h hproper, run_bind, hothers]
  rfl

theorem exprs_singleton (h : expr registry apply env node machine = .ok value after)
    (hproper : value.isError = false) :
    exprs registry apply env [node] machine = .ok (.ok [value]) after := exprs_cons h hproper rfl

theorem expr_applied {function : Value}
    (h : expr registry apply env (.word name) machine = .ok function mid)
    (hproper : function.isError = false)
    (hargs : exprs registry apply env nodes mid = .ok (.ok values) after) :
    expr registry apply env (.applied name nodes) machine = apply function values after := by
  rw [Node.applied, expr, run_operand h hproper, run_bind, hargs]

theorem expr_infixOp {left right : Node} {op : String} {a b : Value}
    (h : expr registry apply env left machine = .ok a mid) (hproper : a.isError = false)
    (h' : expr registry apply env right mid = .ok b after) (hproper' : b.isError = false) :
    expr registry apply env (.infixOp token left op right) machine =
      .ok (Value.applyInfix op a b) after := by
  rw [expr, run_operand h hproper, run_operand h' hproper']
  rfl

/-- A sequence of one expression has its value. -/
theorem statements_exprStmt (last : Option Value) :
    statements registry apply env [.exprStmt token node] last =
      some <$> expr registry apply env node := by
  rw [statements, statement, map_eq_pure_bind, bind_assoc]
  congr 1
  funext value
  rw [pure_bind, statements, ite_self]

theorem body_braced (nodes : List Node) :
    body registry apply env (.braced nodes) = statements registry apply env nodes none := by
  rw [Node.braced, body]

theorem statements_letStmt {target : String} {last : Option Value}
    (h : expr registry apply env node machine = .ok value mid) (hproper : value.isError = false) :
    statements registry apply env (.letStmt token (.word target) node :: nodes) last machine =
      statements registry apply env nodes none
        { mid with store := mid.store.bind env target value } := by
  have hlet : statement registry apply env (.letStmt token (.word target) node) machine =
      .ok none { mid with store := mid.store.bind env target value } := by
    rw [statement, run_operand h hproper]
    rfl
  rw [statements, run_bind, hlet]
  rfl

theorem expr_cond {condition consequence alternative branch : Node} {t : Token}
    (h : expr registry apply env condition machine = .ok test mid) (hproper : test.isError = false)
    (hbranch : (if test.isTruthy then consequence else alternative) =
      .braced [.exprStmt t branch]) :
    expr registry apply env (.cond token condition consequence (some alternative)) machine =
      expr registry apply env branch mid := by
  have hvalue : (do return (← some <$> expr registry apply env branch).getD .null) =
      expr registry apply env branch := by
    rw [map_eq_pure_bind, bind_assoc]
    exact bind_pure _
  rw [expr, run_operand h hproper]
  split
  · next htrue =>
    rw [if_pos htrue] at hbranch
    rw [hbranch, body_braced, statements_exprStmt, hvalue]
  · next hfalse =>
    rw [if_neg hfalse] at hbranch
    rw [alternativeBody, hbranch, body_braced, statements_exprStmt, hvalue]

theorem apply_builtin (depth : Nat) (function : Builtin) (args : List Value) (machine : Machine) :
    Evaluation.apply registry depth (.builtin function) args machine = function.apply args
      { machine with log := machine.log.push (.applyingBuiltin function args.length) } := by
  cases depth <;> rfl

theorem expr_applied_builtin {depth : Nat} (function : Builtin)
    (h : machine.store.get? env function.name = none)
    (hregistry : registry.find? function.name = some function)
    (hargs : exprs registry (Evaluation.apply registry depth) env nodes machine =
      .ok (.ok values) after) :
    expr registry (Evaluation.apply registry depth) env (.applied function.name nodes) machine =
      function.apply values
        { after with log := after.log.push (.applyingBuiltin function values.length) } := by
  rw [expr_applied (expr_word_builtin h hregistry) rfl hargs, apply_builtin]

theorem bindAll_words (env : Address) (args : List (String × Value)) (machine : Machine) :
    bindAll env (args.map fun arg ↦ .word arg.1) (args.map Prod.snd) machine =
      .ok () { machine with
        store := args.foldl (fun inner arg ↦ inner.bind env arg.1 arg.2) machine.store } := by
  induction args generalizing machine with
  | nil => rfl
  | cons arg args ih => exact ih { machine with store := machine.store.bind env arg.1 arg.2 }

/-- The call of a function evaluates its body, which sees the arguments in a new frame. -/
theorem apply_function (depth : Nat) (id : Nat) (args : List (String × Value))
    (code : Node) (scope : Address) (machine : Machine) :
    Evaluation.apply registry (depth + 1)
        (.function id (args.map fun arg ↦ .word arg.1) code scope) (args.map Prod.snd) machine =
      ((fun found ↦ (found.getD .null).unwrap) <$>
        body registry (Evaluation.apply registry depth) machine.store.nextAddress code)
        { machine with
          store := machine.store.call scope args
          log := machine.log.push (.applyingFunction args.length) } := by
  have hlength : (args.map fun arg ↦ Node.word arg.1).length = (args.map Prod.snd).length := by
    rw [List.length_map, List.length_map]
  rw [Evaluation.apply, applyWith, if_neg (not_not.mpr hlength), List.length_map, run_bind]
  change (enclose scope >>= _) _ = _
  rw [run_bind]
  change (bindAll machine.store.nextAddress _ _ >>= _) _ = _
  rw [run_bind, bindAll_words, map_eq_pure_bind]
  rfl

end Evaluation

end MonkeyLang
