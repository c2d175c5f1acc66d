import MonkeyLang.Builtin.Apply
import Mathlib.Order.Defs.Unbundled

/-!
What runs leave behind: a relation between the machines before and behind every step of a run, in
which one step may follow another, holds between those before and behind the whole run, also if the
run is broken off.
-/

namespace MonkeyLang

/-- The machine behind a run, however the run ends. -/
def Run.behind {α : Type} (run : Run α) (machine : Machine) : Machine :=
  match run machine with
  | .ok _ after | .error _ after => after

/-- The run takes every machine to one that stands in the relation to it. -/
def Run.Keeps {α : Type} (R : Machine → Machine → Prop) (run : Run α) : Prop :=
  ∀ machine, R machine (run.behind machine)

/-- The run gives this from some machine. -/
def Run.MayGive {α : Type} (run : Run α) (a : α) : Prop := ∃ machine after, run machine = .ok a after

theorem bind_apply {ε σ α β : Type} (x : EStateM ε σ α) (f : α → EStateM ε σ β) (state : σ) :
    (x >>= f) state = match x state with
      | .ok a after => f a after
      | .error cause after => .error cause after := by
  change EStateM.bind x f state = _
  rw [EStateM.bind]
  cases x state <;> rfl

namespace Run

variable {α β : Type} {R : Machine → Machine → Prop} {run : Run α} {f : α → Run β}
  {machine : Machine}

theorem run_bind (run : Run α) (f : α → Run β) (machine : Machine) :
    (run >>= f) machine = match run machine with
      | .ok a after => f a after
      | .error abort after => .error abort after := by
  rw [bind_apply]
  cases run machine <;> rfl

/-- An operand that is no fault is handed on. -/
theorem run_operand {run : Run Value} {exit : Value → β} {f : Value → Run β} {value : Value}
    {machine after : Machine} (h : run machine = .ok value after)
    (hproper : value.isError = false) :
    (run >>= fun operand ↦ if operand.isError = true then pure (exit operand) else f operand)
      machine = f value after := by
  rw [run_bind, h]
  dsimp only
  rw [hproper, if_neg Bool.false_ne_true]

/-- A run that begins with an operand ends with its fault, or goes on from a value that is none. -/
theorem operand_cases {run : Run Value} {exit : Value → β} {f : Value → Run β} {b : β}
    {machine after : Machine}
    (h : (run >>= fun operand ↦ if operand.isError = true then pure (exit operand) else f operand)
      machine = .ok b after) :
    (∃ fault, fault.isError = true ∧ b = exit fault) ∨ ∃ operand mid,
      run machine = .ok operand mid ∧ operand.isError = false ∧ f operand mid = .ok b after := by
  rw [run_bind] at h
  cases hrun : run machine with
  | error cause mid =>
    rw [hrun] at h
    cases h
  | ok operand mid =>
    rw [hrun] at h
    dsimp only at h
    split at h
    · next hfault =>
      cases h
      exact .inl ⟨operand, hfault, rfl⟩
    · next hfault => exact .inr ⟨operand, mid, rfl, Bool.eq_false_iff.mpr hfault, h⟩

theorem run_map (g : α → β) (run : Run α) (machine : Machine) :
    (g <$> run) machine = match run machine with
      | .ok a after => .ok (g a) after
      | .error abort after => .error abort after := by
  change EStateM.map g run machine = _
  rw [EStateM.map]
  cases run machine <;> rfl

theorem run_except_bind {ε : Type} (run : ExceptT ε Run α) (f : α → ExceptT ε Run β)
    (machine : Machine) :
    (run >>= f).run machine = match run.run machine with
      | .ok (.ok a) after => (f a).run after
      | .ok (.error exit) after => .ok (.error exit) after
      | .error abort after => .error abort after := by
  refine (run_bind _ _ machine).trans ?_
  generalize hresult : run.run machine = result
  rw [show run machine = result from hresult]
  rcases result with ⟨exit | a, after⟩ | ⟨abort, after⟩ <;> rfl

theorem run_except_lift {ε : Type} (run : Run α) (machine : Machine) :
    (liftM run : ExceptT ε Run α).run machine = match run machine with
      | .ok a after => .ok (.ok a) after
      | .error abort after => .error abort after := run_map Except.ok run machine

theorem run_except_tryCatch {ε : Type} (run : ExceptT ε Run α) (handle : ε → ExceptT ε Run α)
    (machine : Machine) :
    (tryCatch run handle).run machine = match run.run machine with
      | .ok (.ok a) after => .ok (.ok a) after
      | .ok (.error exit) after => (handle exit).run after
      | .error abort after => .error abort after := by
  refine (run_bind _ _ machine).trans ?_
  generalize hresult : run.run machine = result
  rw [show run machine = result from hresult]
  rcases result with ⟨exit | a, after⟩ | ⟨abort, after⟩ <;> rfl

theorem behind_ok {a : α} {after : Machine} (h : run machine = .ok a after) :
    run.behind machine = after := by rw [behind, h]

theorem behind_error {cause : Abort} {after : Machine} (h : run machine = .error cause after) :
    run.behind machine = after := by rw [behind, h]

theorem behind_bind (run : Run α) (f : α → Run β) (machine : Machine) :
    (run >>= f).behind machine = match run machine with
      | .ok a after => (f a).behind after
      | .error _ after => after := by
  rw [behind, run_bind]
  cases run machine <;> rfl

theorem eq_of_mayGive_pure {a b : α} (h : (pure a : Run α).MayGive b) : b = a := by
  obtain ⟨machine, after, h⟩ := h
  cases h
  rfl

theorem not_mayGive_throw {cause : Abort} {a : α} : ¬ (throw cause : Run α).MayGive a := by
  rintro ⟨machine, after, h⟩
  cases h

theorem mayGive_bind {b : β} (h : (run >>= f).MayGive b) : ∃ a, run.MayGive a ∧ (f a).MayGive b := by
  obtain ⟨machine, after, h⟩ := h
  rw [run_bind] at h
  cases hr : run machine with
  | ok a mid =>
    rw [hr] at h
    exact ⟨a, ⟨machine, mid, hr⟩, mid, after, h⟩
  | error cause mid =>
    rw [hr] at h
    cases h

theorem keeps_modify {g : Machine → Machine} (h : ∀ machine, R machine (g machine)) :
    Keeps R (modify g : Run Unit) := h

/-- What holds of the steps of builtin functions, and of one step behind another, holds of builtin
functions. -/
theorem builtin_induction {P : {α : Type} → Run α → Prop}
    (hpure : ∀ {α : Type} (a : α), P (pure a : Run α))
    (hbind : ∀ {α β : Type} {run : Run α} {f : α → Run β}, P run → (∀ a, P (f a)) → P (run >>= f))
    (hwrite : ∀ text, P (write text)) (hcreate : P freshId) (function : Builtin)
    (args : List Value) : P (function.apply args) := by
  have harray : ∀ elements, P (newArray elements) := fun _ ↦ hbind hcreate fun _ ↦ hpure _
  have hlines : ∀ values, P (Builtin.writeLines values) := by
    intro values
    induction values with
    | nil => exact hpure ()
    | cons value others ih => exact hbind (hwrite _) fun _ ↦ ih
  unfold Builtin.apply
  split
  case h_4 elements =>
    cases elements with
    | nil => exact hpure _
    | cons => exact harray _
  case h_5 => exact harray _
  case h_6 => exact hbind (hlines args) fun _ ↦ hpure _
  all_goals exact hpure _

section Order

variable [IsPreorder Machine R]

theorem keeps_pure (a : α) : Keeps R (pure a : Run α) := fun machine ↦ refl_of R machine

theorem keeps_throw (abort : Abort) : Keeps R (throw abort : Run α) :=
  fun machine ↦ refl_of R machine

theorem keeps_bind_of_mayGive (h : Keeps R run) (hf : ∀ a, run.MayGive a → Keeps R (f a)) :
    Keeps R (run >>= f) := by
  intro machine
  have hrun := h machine
  rw [behind] at hrun
  rw [behind_bind]
  cases hr : run machine with
  | ok a after =>
    rw [hr] at hrun
    exact trans_of R hrun (hf a ⟨machine, after, hr⟩ after)
  | error abort after =>
    rw [hr] at hrun
    exact hrun

theorem keeps_bind (h : Keeps R run) (hf : ∀ a, Keeps R (f a)) : Keeps R (run >>= f) :=
  keeps_bind_of_mayGive h fun a _ ↦ hf a

theorem keeps_map (h : Keeps R run) (g : α → β) : Keeps R (g <$> run) := by
  rw [map_eq_pure_bind]
  exact keeps_bind h fun a ↦ keeps_pure (g a)

theorem keeps_lookup? (env : Address) (name : String) : Keeps R (lookup? env name) :=
  fun machine ↦ refl_of R machine

theorem keeps_create {make : Nat → α} (h : Keeps R freshId) :
    Keeps R (do return make (← freshId)) := keeps_bind h fun i ↦ keeps_pure (make i)

theorem keeps_builtin (hwrite : ∀ text, Keeps R (write text)) (hcreate : Keeps R freshId)
    (function : Builtin) (args : List Value) : Keeps R (function.apply args) :=
  builtin_induction keeps_pure keeps_bind hwrite hcreate function args

end Order

end Run

end MonkeyLang
