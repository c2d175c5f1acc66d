import MonkeyLang.Proofs.Evaluation.Confined
import MonkeyLang.Proofs.Evaluation.Throwing

/-!
When a run that returns faults agrees with one that throws them: from every machine whose store is
in a region both lead to the same machine, in the region again, and to the same result or fault.
-/

namespace MonkeyLang

open Thrower

variable {α β γ δ : Type} {E : Address → Prop}

/-- From every machine in a region the run leads to one in the region, and what it gives, if
anything, satisfies `P`. -/
def Run.Yields (E : Address → Prop) (P : α → Prop) (run : Run α) : Prop :=
  ∀ machine, machine.store.Region E → match run machine with
    | .ok a after => P a ∧ after.store.Region E
    | .error _ after => after.store.Region E

/-- The result of a run that returns faults is that of one that throws them. -/
def Follows (E : Address → Prop) (ok : β → α) (fail : Fault → α) (P : β → Prop)
    (result : EStateM.Result Abort Machine α) :
    EStateM.Result Abort Machine (Except Exit β) → Prop
  | .ok (.ok b) after => result = .ok (ok b) after ∧ P b ∧ after.store.Region E
  | .ok (.error (.fault fault)) after => result = .ok (fail fault) after ∧ after.store.Region E
  | .ok (.error (.misuse _)) _ => False
  | .error cause after => result = .error cause after ∧ after.store.Region E

/-- The run returns a fault where the other one throws it, and otherwise both give the same, which
satisfies `P`. -/
def Agrees (E : Address → Prop) (ok : β → α) (fail : Fault → α) (P : β → Prop) (run : Run α)
    (thrower : Thrower β) : Prop :=
  ∀ machine, machine.store.Region E → Follows E ok fail P (run machine) (thrower.run machine)

/-- A region is what is confined to faultless values. -/
theorem Run.Gives.yields {P : α → Prop} {run : Run α}
    (h : run.Gives (Store.Confined E (Value.Faultless E)) P) : run.Yields E P := by
  intro machine hregion
  have hrun := h machine (Store.region_iff.mp hregion)
  cases hr : run machine with
  | ok a after =>
    rw [hr] at hrun
    exact ⟨hrun.1, Store.region_iff.mpr hrun.2⟩
  | error cause after =>
    rw [hr] at hrun
    exact Store.region_iff.mpr hrun

section Agrees

variable {P : β → Prop} {Q : δ → Prop} {ok : β → α} {fail : Fault → α} {ok' : δ → γ}
  {fail' : Fault → γ} {run : Run α} {thrower : Thrower β} {k : α → Run γ} {k' : β → Thrower δ}

theorem agrees_pure {b : β} (h : P b) : Agrees E ok fail P (pure (ok b)) (pure b) :=
  fun _ hregion ↦ ⟨rfl, h, hregion⟩

theorem agrees_fault (fault : Fault) :
    Agrees E ok fail P (pure (fail fault)) (throw (.fault fault)) :=
  fun _ hregion ↦ ⟨rfl, hregion⟩

theorem agrees_abort (cause : Abort) : Agrees E ok fail P (throw cause) (abort cause) :=
  fun _ hregion ↦ ⟨rfl, hregion⟩

/-- Runs that agree are gone on from in the same way; a fault that is returned is passed on. -/
theorem agrees_bind (h : Agrees E ok fail P run thrower)
    (hok : ∀ b, P b → Agrees E ok' fail' Q (k (ok b)) (k' b))
    (hfail : ∀ fault, k (fail fault) = pure (fail' fault)) :
    Agrees E ok' fail' Q (run >>= k) (thrower >>= k') := by
  intro machine hregion
  have hrun := h machine hregion
  rw [Run.run_bind, Run.run_except_bind]
  rcases ht : thrower.run machine with ⟨exit | b, after⟩ | ⟨cause, after⟩
  · rw [ht] at hrun
    cases exit with
    | fault fault =>
      obtain ⟨hr, hafter⟩ := hrun
      rw [hr]
      simp only [hfail]
      exact ⟨rfl, hafter⟩
    | misuse fault => exact hrun.elim
  · rw [ht] at hrun
    obtain ⟨hr, hb, hafter⟩ := hrun
    rw [hr]
    exact hok b hb after hafter
  · rw [ht] at hrun
    obtain ⟨hr, hafter⟩ := hrun
    rw [hr]
    exact ⟨rfl, hafter⟩

/-- A step that gives no fault is the same on both sides. -/
theorem agrees_lift_bind {run : Run β} {k : β → Run γ} (h : run.Yields E P)
    (hk : ∀ b, P b → Agrees E ok' fail' Q (k b) (k' b)) :
    Agrees E ok' fail' Q (run >>= k) (liftM run >>= k') := by
  intro machine hregion
  have hrun := h machine hregion
  rw [Run.run_bind, Run.run_except_bind, Run.run_except_lift]
  cases hr : run machine with
  | ok b after =>
    rw [hr] at hrun
    exact hk b hrun.1 after hrun.2
  | error cause after =>
    rw [hr] at hrun
    exact ⟨rfl, hrun⟩

theorem agrees_lift {run : Run β} {fail : Fault → β} (h : run.Yields E P) :
    Agrees E (fun b ↦ b) fail P run (liftM run) := by
  have hbind : Agrees E (fun b ↦ b) fail P (run >>= pure) (liftM run >>= pure) :=
    agrees_lift_bind h fun _ hb ↦ agrees_pure hb
  rwa [bind_pure, bind_pure] at hbind

theorem agrees_map {g : α → γ} {g' : β → δ} (h : Agrees E ok fail P run thrower)
    (hok : ∀ b, P b → g (ok b) = ok' (g' b) ∧ Q (g' b))
    (hfail : ∀ fault, g (fail fault) = fail' fault) :
    Agrees E ok' fail' Q (g <$> run) (g' <$> thrower) := by
  rw [map_eq_pure_bind, map_eq_pure_bind]
  refine agrees_bind h (fun b hb ↦ ?_) fun fault ↦ ?_
  · rw [(hok b hb).1]
    exact agrees_pure (hok b hb).2
  · rw [hfail]

end Agrees

section Values

variable {P : β → Prop} {ok : β → α} {fail : Fault → α} {run : Run Value}
  {thrower : Thrower Value} {value : Value}

/-- A run that gives a value agrees with one that throws where this gives a fault. -/
abbrev AgreesOnValue (E : Address → Prop) : Run Value → Thrower Value → Prop :=
  Agrees E (fun value ↦ value) .error (Value.Faultless E)

theorem agrees_raise (h : value.Sound E) : AgreesOnValue E (pure value) (raise value) := by
  rcases h with ⟨fault, rfl⟩ | h
  · exact agrees_fault fault
  · have hraise : raise value = pure value := by cases h <;> rfl
    rw [hraise]
    exact agrees_pure h

theorem agrees_raise_run (h : run.Yields E (Value.Sound E)) :
    AgreesOnValue E run (do raise (← run)) := by
  have hbind := agrees_lift_bind (k := pure) h fun value hvalue ↦ agrees_raise hvalue
  rwa [bind_pure] at hbind

/-- Looking whether a value is a fault, and then passing it on, is what throwing spares. -/
theorem agrees_value_bind {exit : Value → α} {k : Value → Run α} {k' : Value → Thrower β}
    (h : AgreesOnValue E run thrower) (hexit : ∀ fault, exit (.error fault) = fail fault)
    (hk : ∀ value, value.Faultless E → Agrees E ok fail P (k value) (k' value)) :
    Agrees E ok fail P
      (run >>= fun value ↦ if value.isError = true then pure (exit value) else k value)
      (thrower >>= k') := by
  refine agrees_bind h (fun value hvalue ↦ ?_) fun fault ↦ ?_
  · rw [hvalue.isError]
    exact hk value hvalue
  · simp only [Value.isError, if_true, hexit]

theorem agrees_use {run : Run α} {k : Unit → Thrower β} (h : value.Faultless E)
    (hk : Agrees E ok fail P run (k ())) : Agrees E ok fail P run (use value >>= k) := by
  have huse : use value = pure () := by cases h <;> rfl
  rwa [huse, pure_bind]

theorem agrees_useAll {values : List Value} {run : Run α} {k : Unit → Thrower β}
    (h : ∀ value ∈ values, value.Faultless E) (hk : Agrees E ok fail P run (k ())) :
    Agrees E ok fail P run (useAll values >>= k) := by
  induction values with
  | nil => rwa [useAll, pure_bind]
  | cons value others ih =>
    obtain ⟨hvalue, hothers⟩ := List.forall_mem_cons.mp h
    rw [useAll, bind_assoc]
    exact agrees_use hvalue (ih hothers)

end Values

end MonkeyLang
