import MonkeyLang.Proofs.Evaluation.Simulation
import MonkeyLang.Proofs.Store.Hidden
import Mathlib.Data.Set.Insert

/-!
Names that are not mentioned do not matter: evaluation cannot tell what is bound to them, neither in
frames nor in the registry.
-/

namespace MonkeyLang.Evaluation

open Run

variable {hidden : Set String} {node : Node} {registry registry' : Registry} {env : Address}
  {machine machine' : Machine}

/-- No frame changes in a run but that of its environment, so that those stay as they are that
cannot be seen. -/
theorem frame?_behind {address : Address} (hne : address ≠ env)
    (hold : address < machine.store.nextAddress) (depth : Nat) :
    ((node.evaluate registry depth env).behind machine).store.frame? address =
      machine.store.frame? address := by
  obtain ⟨frame, hframe⟩ := Option.isSome_iff_exists.mp (Store.isSome_frame?.mpr hold)
  rw [hframe]
  exact (evaluate_changesOnly node registry depth env machine address frame hframe).1 hne

/-- Let no hidden name occur in the node or in a function that can be seen from the environment
without asking for a hidden name. Then the node is evaluated in the same way on machines whose
frames bind hidden names differently, with registries that know different functions by such names:
to the same value or the same end, with the same output, and with machines that differ again in what
their frames bind to hidden names only. -/
theorem evaluate_sameBut (hnode : ∀ name ∈ node.names, name ∉ hidden)
    (hseen : ∀ value, machine.store.SeesValue hidden env value →
      ∀ name ∈ value.ownNames, name ∉ hidden)
    (hregistry : ∀ name ∉ hidden, registry.find? name = registry'.find? name)
    (hmachine : machine.SameBut hidden machine') (depth : Nat) :
    match node.evaluate registry depth env machine, node.evaluate registry' depth env machine' with
    | .ok value after, .ok value' after' => value = value' ∧ after.SameBut hidden after'
    | .error cause after, .error cause' after' => cause = cause' ∧ after.SameBut hidden after'
    | _, _ => False := by
  let L : Likeness := .without hidden machine.store env
  have hsimulates : Simulates L (Option.Rel (Value.Like L)) (node.evaluate registry depth env)
      (node.evaluate registry' depth env) := by
    have henv : L.addresses env env := ⟨rfl, .inl .self⟩
    refine simulates_evaluate (fun name hname ↦ ?_) depth henv ?_
    · exact hregistry name (Likeness.visible_without.mp hname)
    · exact .of_names (fun _ ↦ rfl) fun name hname ↦ Likeness.visible_without.mpr (hnode name hname)
  have hold : ∀ address ≠ env, address < machine.store.nextAddress →
      ((node.evaluate registry depth env).behind machine).store.frame? address =
        machine.store.frame? address ∧
      ((node.evaluate registry' depth env).behind machine').store.frame? address =
        machine'.store.frame? address :=
    fun address hne hlt ↦
      ⟨frame?_behind hne hlt depth, frame?_behind hne (hmachine.nextAddress_eq ▸ hlt) depth⟩
  rcases (hsimulates machine machine' (hmachine.like hseen)).cases with
    ⟨value, after, value', after', hr, hr', hvalue, hlike⟩ | ⟨cause, after, after', hr, hr', hlike⟩
  · rw [behind_ok hr, behind_ok hr'] at hold
    rw [hr, hr']
    refine ⟨?_, hmachine.of_like hlike hold⟩
    cases hvalue with
    | none => rfl
    | some hvalue => rw [hvalue.eq Likeness.literal_without]
  · rw [behind_error hr, behind_error hr'] at hold
    rw [hr, hr']
    exact ⟨rfl, hmachine.of_like hlike hold⟩

/-- A call of a function on two machines of which only one binds one name and the other another. -/
theorem evaluate_sameBut_call :
    let hidden : Set String := {"x", "puts"}
    let f : Value := .function 0 [.ident .eof "y"] (.block .eof [.exprStmt .eof
      (.infixOp .eof (.ident .eof "y") "+" (.ident .eof "z"))]) 0
    let machine : Machine :=
      ⟨⟨#[⟨[("x", .integer 1), ("f", f), ("z", .integer 2)], []⟩]⟩, 1, "", #[]⟩
    let machine' : Machine :=
      ⟨⟨#[⟨[("f", f), ("puts", .null), ("z", .integer 2)], []⟩]⟩, 1, "", #[]⟩
    let node : Node := .call .eof (.ident .eof "f") [.int .eof 3]
    (∀ name ∈ node.names, name ∉ hidden) ∧
    (∀ value, machine.store.SeesValue hidden 0 value → ∀ name ∈ value.ownNames, name ∉ hidden) ∧
    (∀ name ∉ hidden, Registry.find? [.len, .puts] name = Registry.find? [.len] name) ∧
    machine.SameBut hidden machine' ∧
    match node.evaluate [.len, .puts] 1 0 machine, node.evaluate [.len] 1 0 machine' with
    | .ok value after, .ok value' after' => value = value' ∧ after.SameBut hidden after'
    | .error cause after, .error cause' after' => cause = cause' ∧ after.SameBut hidden after'
    | _, _ => False := by
  intro hidden f machine machine' node
  have hnode : ∀ name ∈ node.names, name ∉ hidden := by
    have hnames : node.names = ["f"] := by decide +kernel
    rw [hnames]
    simp [hidden]
  have hseen : ∀ value, machine.store.SeesValue hidden 0 value →
      ∀ name ∈ value.ownNames, name ∉ hidden := by
    intro value hvalue
    obtain ⟨address, frame, hframe, entry, hentry, hname, hnested⟩ := hvalue.exists_bound
    cases address with
    | succ address => cases hframe
    | zero =>
      obtain rfl := Option.some.inj hframe
      have hnames : f.ownNames = ["y", "y", "z", "y"] := by decide +kernel
      rcases hentry with _ | ⟨_, _ | ⟨_, _ | ⟨_, ⟨⟩⟩⟩⟩
      · exact absurd (.inl rfl) hname
      · obtain rfl := List.mem_singleton.mp hnested
        rw [hnames]
        simp [hidden]
      · obtain rfl := List.mem_singleton.mp hnested
        exact List.forall_mem_nil _
  have hregistry : ∀ name ∉ hidden,
      Registry.find? [.len, .puts] name = Registry.find? [.len] name := by
    intro name hname
    have hputs : (Builtin.puts.name == name) = false :=
      beq_eq_false_iff_ne.mpr fun h ↦ hname (.inr h.symm)
    rw [Registry.find?, Registry.find?, List.find?_cons, List.find?_cons, hputs, List.find?_cons]
  have hmachine : machine.SameBut hidden machine' := by
    refine ⟨fun address ↦ ?_, rfl, rfl⟩
    cases address with
    | succ address => rfl
    | zero =>
      refine congrArg some ?_
      simp [Frame.without, hidden, machine, machine']
  exact ⟨hnode, hseen, hregistry, hmachine, evaluate_sameBut hnode hseen hregistry hmachine 1⟩

end MonkeyLang.Evaluation
