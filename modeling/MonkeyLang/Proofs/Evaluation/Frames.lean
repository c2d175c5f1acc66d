import MonkeyLang.Proofs.Evaluation.Keeps
import MonkeyLang.Proofs.Store.Growth

/-!
Which frames evaluation changes: a call none of those that are there before it, and a node that of
its environment alone, by the let statements that lie outside function literals.
-/

namespace MonkeyLang

/-- The name to which a let statement or a parameter binds a value. -/
def Node.boundName? : Node → Option String
  | .ident _ name | .str _ name => some name
  | _ => none

/-- The names that the let statements of a node bind outside function literals. -/
def Node.letNames (node : Node) : List String := node.targets.filterMap Node.boundName?

namespace Machine

/-- The run between the machines changes only the frame of an environment, and that by bindings of
the given names. -/
def ChangesOnly (env : Address) (names : List String) (before after : Machine) : Prop :=
  before.store.ChangesOnly env names after.store

/-- The run between the machines changes no frame. -/
def Extends (before after : Machine) : Prop := before.store.Extends after.store

instance (env : Address) (names : List String) : IsPreorder Machine (ChangesOnly env names) where
  refl _ := Store.Extends.changesOnly fun _ _ h ↦ h
  trans _ _ _ h h' := Store.ChangesOnly.trans h h'

instance : IsPreorder Machine Extends where
  refl _ := fun _ _ h ↦ h
  trans _ _ _ h h' := Store.Extends.trans h h'

end Machine

namespace Run

theorem keeps_extends_modify {g : Machine → Machine}
    (h : ∀ machine, (g machine).store = machine.store) :
    Keeps Machine.Extends (modify g) := by
  refine keeps_modify fun machine address frame hf ↦ ?_
  rwa [h machine]

theorem record_extends (entry : LogRecord) : Keeps Machine.Extends (record entry) :=
  keeps_extends_modify fun _ ↦ rfl

theorem write_extends (text : String) : Keeps Machine.Extends (write text) :=
  keeps_extends_modify fun _ ↦ rfl

theorem freshId_extends : Keeps Machine.Extends freshId := fun _ _ _ h ↦ h

theorem Keeps.changesOnly {α : Type} {run : Run α} {env : Address} {names : List String}
    (h : Keeps Machine.Extends run) :
    Keeps (Machine.ChangesOnly env names) run := fun machine ↦ (h machine).changesOnly

end Run

namespace Evaluation

open Run

variable {registry : Registry} {names : List String} {env : Address}

theorem bindTo_changesOnly {target : Node} (h : ∀ name ∈ target.boundName?, name ∈ names)
    (value : Value) : Keeps (Machine.ChangesOnly env names) (bindTo env target value) := by
  unfold bindTo
  split
  · exact fun machine ↦ Store.bind_changesOnly (h _ rfl) machine.store value
  · exact fun machine ↦ Store.bind_changesOnly (h _ rfl) machine.store value
  · exact keeps_pure _
  · exact keeps_pure _
  · exact keeps_throw _

theorem bindAll_changesOnly {params : List Node}
    (h : ∀ param ∈ params, ∀ name ∈ param.boundName?, name ∈ names) (args : List Value) :
    Keeps (Machine.ChangesOnly env names) (bindAll env params args) := by
  induction params generalizing args with
  | nil => exact keeps_pure _
  | cons param params ih =>
    cases args with
    | nil => exact keeps_pure _
    | cons value args =>
      have hparam : Keeps (Machine.ChangesOnly env names) (bindTo env param value) :=
        bindTo_changesOnly (h param (List.mem_cons_self ..)) value
      exact keeps_bind hparam fun _ ↦ ih (fun param hp ↦ h param (List.mem_cons_of_mem _ hp)) args

/-- What changes the frame of a new environment alone changes none that is there before. -/
theorem enclose_bind_extends {α : Type} {f : Address → Run α} (names : List String)
    (scope : Address)
    (h : ∀ env, Keeps (Machine.ChangesOnly env names) (f env)) :
    Keeps Machine.Extends (enclose scope >>= f) := by
  intro machine
  -- the frame at the next address is not there before, so that its changes leave all others alone
  have hf := h machine.store.nextAddress
    { machine with store := machine.store.enclose scope }
  exact ((machine.store.enclose_extends scope).changesOnly.trans hf).extends

theorem applyWith_extends {enter : Address → Node → Run (Option Value)}
    (h : ∀ env code, Keeps (Machine.ChangesOnly env code.letNames) (enter env code))
    (callee : Value) (args : List Value) : Keeps Machine.Extends (applyWith enter callee args) := by
  unfold applyWith
  split
  · next params code scope =>
    split
    · exact keeps_pure _
    · refine keeps_bind (record_extends _) fun _ ↦ ?_
      refine enclose_bind_extends (params.filterMap Node.boundName? ++ code.letNames) scope
        fun env ↦ ?_
      refine keeps_bind (bindAll_changesOnly (fun param hp name hname ↦ ?_) args) fun _ ↦ ?_
      · exact List.mem_append_left _ (List.mem_filterMap.mpr ⟨param, hp, hname⟩)
      · refine keeps_bind (fun machine ↦ ?_) fun _ ↦ keeps_pure _
        exact (h env code machine).mono (List.subset_append_right _ _)
  · exact keeps_bind (record_extends _) fun _ ↦
      keeps_builtin write_extends freshId_extends _ args
  · exact keeps_pure _

theorem mem_letNames {node target : Node} (h : target ∈ node.targets) :
    ∀ name ∈ target.boundName?, name ∈ node.letNames :=
  fun _ hname ↦ List.mem_filterMap.mpr ⟨target, h, hname⟩

theorem apply_extends (registry : Registry) (depth : Nat) (callee : Value) (args : List Value) :
    Keeps Machine.Extends (apply registry depth callee args) := by
  induction depth generalizing callee args with
  | zero => exact applyWith_extends (fun _ _ ↦ keeps_throw _) callee args
  | succ depth ih =>
    refine applyWith_extends (fun env code ↦ ?_) callee args
    exact keeps_body freshId_extends.changesOnly (fun callee args ↦ (ih callee args).changesOnly)
      code fun target ht value ↦ bindTo_changesOnly (mem_letNames ht) value

theorem evaluate_changesOnly (node : Node) (registry : Registry) (depth : Nat) (env : Address) :
    Keeps (Machine.ChangesOnly env node.letNames) (node.evaluate registry depth env) :=
  keeps_root freshId_extends.changesOnly
    (fun callee args ↦ (apply_extends registry depth callee args).changesOnly)
    (fun entry ↦ (record_extends entry).changesOnly)
    fun _ ht value ↦ bindTo_changesOnly (mem_letNames ht) value

/-- A call leaves every frame as it was, however it ends. The evaluation of a node leaves all frames
as they were but that of its environment, in which it changes only what the let statements outside
function literals bind. -/
theorem frames_behind :
    (∀ (registry : Registry) (depth : Nat) (callee : Value) (args : List Value) (machine : Machine),
      machine.store.Extends ((apply registry depth callee args).behind machine).store) ∧
    ∀ (node : Node) (registry : Registry) (depth : Nat) (env : Address) (machine : Machine),
      machine.store.ChangesOnly env node.letNames
        ((node.evaluate registry depth env).behind machine).store :=
  ⟨apply_extends, evaluate_changesOnly⟩

end Evaluation

end MonkeyLang
