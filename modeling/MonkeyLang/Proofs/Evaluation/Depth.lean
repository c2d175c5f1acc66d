import MonkeyLang.Proofs.Evaluation.Correspondence
import MonkeyLang.Proofs.Evaluation.Keeps

/-!
The bound on nested calls. Under every bound evaluation ends, since nothing but calls can make it go
deeper than the tree; and a greater bound changes no answer but that of the runs which the smaller
one has cut off, and of these it keeps what they have written.
-/

namespace MonkeyLang

/-- What has been written stays written, and more is written behind it. -/
def Machine.Writes (before after : Machine) : Prop := ∃ more, after.output = before.output ++ more

instance : IsPreorder Machine Machine.Writes where
  refl machine := ⟨"", String.append_empty.symm⟩
  trans a b c h h' := by
    obtain ⟨more, h⟩ := h
    obtain ⟨more', h'⟩ := h'
    exact ⟨more ++ more', by rw [h', h, String.append_assoc]⟩

namespace Run

variable {α β : Type} {run run' : Run α} {f g : α → Run β}

theorem keeps_writes_modify {h : Machine → Machine}
    (hh : ∀ machine, (h machine).output = machine.output) :
    Keeps Machine.Writes (modify h) :=
  keeps_modify fun machine ↦ ⟨"", by rw [hh, String.append_empty]⟩

theorem record_writes (entry : LogRecord) : Keeps Machine.Writes (record entry) :=
  keeps_writes_modify fun _ ↦ rfl

theorem write_writes (text : String) : Keeps Machine.Writes (write text) :=
  keeps_modify fun _ ↦ ⟨text, rfl⟩

theorem freshId_writes : Keeps Machine.Writes freshId :=
  fun _ ↦ ⟨"", String.append_empty.symm⟩

theorem enclose_writes (scope : Address) : Keeps Machine.Writes (enclose scope) :=
  fun _ ↦ ⟨"", String.append_empty.symm⟩

theorem bindName_writes (env : Address) (name : String) (value : Value) :
    Keeps Machine.Writes (bindName env name value) := keeps_writes_modify fun _ ↦ rfl

/-- The run is the other one, cut off where it meets the limit of depth. -/
def Cuts (run whole : Run α) : Prop := ∀ machine, match run machine with
  | .ok a after => whole machine = .ok a after
  | .error .depthLimit after => after.Writes (whole.behind machine)
  | .error cause after => whole machine = .error cause after

theorem cuts_refl (run : Run α) : Cuts run run := by
  intro machine
  rcases hr : run machine with ⟨a, after⟩ | ⟨cause, after⟩
  · rfl
  · cases cause with
    | depthLimit => exact ⟨"", by rw [behind_error hr, String.append_empty]⟩
    | _ => rfl

theorem cuts_limit (h : Keeps Machine.Writes run) : Cuts (throw .depthLimit) run := h

/-- What the whole run writes after the place of the cut comes behind what was written there. -/
theorem cuts_bind (h : Cuts run run') (hf : ∀ a, run'.MayGive a → Cuts (f a) (g a))
    (hg : ∀ a, run'.MayGive a → Keeps Machine.Writes (g a)) : Cuts (run >>= f) (run' >>= g) := by
  intro machine
  have hrun := h machine
  rw [run_bind]
  rcases hr : run machine with ⟨a, after⟩ | ⟨cause, after⟩ <;> rw [hr] at hrun
  · have hnext := hf a ⟨machine, after, hrun⟩ after
    have hwhole : (run' >>= g) machine = g a after := by rw [run_bind, hrun]
    rw [behind, hwhole]
    exact hnext
  · cases cause with
    | depthLimit =>
      refine trans_of Machine.Writes hrun ?_
      rw [behind_bind]
      rcases hr' : run' machine with ⟨a, mid⟩ | ⟨cause, mid⟩
      · rw [behind_ok hr']
        exact hg a ⟨machine, mid, hr'⟩ mid
      · rw [behind_error hr']
        exact refl_of Machine.Writes mid
    | _ =>
      change (run' >>= g) machine = _
      rw [run_bind, hrun]

end Run

namespace Effects

/-- Every step is that of the other run, and only writes behind what has been written. -/
def cutCongruence (registry : Registry) : Congruence (plain registry) registry where
  rel run whole := run.Cuts whole ∧ whole.Keeps Machine.Writes
  pure a := ⟨Run.cuts_refl _, Run.keeps_pure a⟩
  bind h hf :=
    ⟨Run.cuts_bind h.1 (fun a ha ↦ (hf a ha).1) fun a ha ↦ (hf a ha).2,
      Run.keeps_bind_of_mayGive h.2 fun a ha ↦ (hf a ha).2⟩
  lookup _ name := ⟨Run.cuts_refl _, Evaluation.keeps_lookup name⟩
  bindTo env target value :=
    ⟨Run.cuts_refl _, Evaluation.keeps_bindTo Run.bindName_writes env target value⟩
  create _ := ⟨Run.cuts_refl _, Run.keeps_create Run.freshId_writes⟩
  builtin function args :=
    ⟨Run.cuts_refl _, Run.keeps_builtin Run.write_writes Run.freshId_writes function args⟩
  enclose scope := ⟨Run.cuts_refl _, Run.enclose_writes scope⟩
  record entry := ⟨Run.cuts_refl _, Run.record_writes entry⟩
  abort _ := ⟨Run.cuts_refl _, Run.keeps_throw _⟩
  inside h := h
  note value := ⟨Run.cuts_refl _, Run.keeps_pure value⟩

end Effects

namespace Evaluation

open Effects (cutCongruence)

theorem body_writes (registry : Registry) (depth : Nat) (env : Address) (code : Node) :
    (body registry (apply registry depth) env code).Keeps Machine.Writes :=
  keeps_body Run.freshId_writes
    (keeps_apply Run.record_writes Run.write_writes Run.freshId_writes Run.enclose_writes
      Run.bindName_writes registry depth)
    code fun target _ value ↦ keeps_bindTo Run.bindName_writes env target value

/-- By induction on the smaller bound, at whose end every run is cut off. -/
theorem apply_cuts (registry : Registry) (depth more : Nat) (callee : Value) (args : List Value) :
    (cutCongruence registry).rel ((Effects.plain registry).apply depth callee args)
      (apply registry (depth + more) callee args) := by
  induction depth generalizing callee args with
  | zero =>
    cases more with
    | zero => exact (cutCongruence registry).rel_apply 0 callee args
    | succ more =>
      rw [Nat.zero_add]
      refine Congruence.rel_applyWith (fun env code ↦ ?_) callee args
      have hwrites := body_writes registry more env code
      exact ⟨Run.cuts_limit hwrites, hwrites⟩
  | succ depth ih =>
    rw [Nat.succ_add]
    exact Congruence.rel_applyWith (fun env code ↦ Congruence.rel_body ih code) callee args

theorem evaluate_cuts (registry : Registry) (depth more : Nat) (env : Address) (node : Node) :
    (node.evaluate registry depth env).Cuts (node.evaluate registry (depth + more) env) := by
  rw [← Effects.plain_evaluate registry depth]
  exact (Congruence.rel_root (apply_cuts registry depth more) node).1

end Evaluation

section Fuel

/-- Evaluation has been asked to go deeper than it may. -/
inductive Exhaustion
  | exhausted

/-- Runs on fuel, of which everything that stands inside something else gets one unit less. -/
abbrev Fuelled : Type → Type := ReaderT Nat (ExceptT Exhaustion Run)

/-- Without fuel nothing is evaluated. -/
def Fuelled.inside {α : Type} (x : Fuelled α) : Fuelled α
  | 0 => throw .exhausted
  | fuel + 1 => x fuel

/-- The steps of runs on fuel: they are those of evaluation, but to go deeper costs fuel. -/
def Effects.fuelled (registry : Registry) : Effects Fuelled where
  lookup env name := liftM (Evaluation.lookup registry env name)
  bindTo env target value := liftM (Evaluation.bindTo env target value)
  create make := liftM (do return make (← Run.freshId) : Run Value)
  builtin function args := liftM (function.apply args)
  enclose scope := liftM (Run.enclose scope)
  record entry := liftM (Run.record entry)
  abort {α} cause := liftM (throw cause : Run α)
  inside := Fuelled.inside
  note := pure

/-- From every machine, with enough fuel, the run ends as the other one does. -/
def Fuelled.Ends {α : Type} (x : Fuelled α) (run : Run α) : Prop :=
  ∀ machine, ∃ enough, ∀ fuel, enough ≤ fuel → (x fuel).run machine = (Except.ok <$> run) machine

namespace Fuelled

variable {α β : Type} {x : Fuelled α} {run : Run α} {f : α → Fuelled β} {g : α → Run β}

theorem ends_lift (run : Run α) : Ends (liftM run) run := fun _ ↦ ⟨0, fun _ _ ↦ rfl⟩

theorem ends_pure (a : α) : Ends (pure a) (pure a) := fun _ ↦ ⟨0, fun _ _ ↦ rfl⟩

/-- What is enough for both parts is enough for the whole. -/
theorem ends_bind (h : Ends x run) (hf : ∀ a, run.MayGive a → Ends (f a) (g a)) :
    Ends (x >>= f) (run >>= g) := by
  intro machine
  obtain ⟨enough, hx⟩ := h machine
  rcases hr : run machine with ⟨a, mid⟩ | ⟨cause, mid⟩
  · obtain ⟨enough', hnext⟩ := hf a ⟨machine, mid, hr⟩ mid
    refine ⟨max enough enough', fun fuel hfuel ↦ ?_⟩
    have hfirst := hx fuel (Nat.le_trans (Nat.le_max_left ..) hfuel)
    rw [Run.run_map, hr] at hfirst
    have hwhole : (Except.ok <$> (run >>= g) : Run (Except Exhaustion β)) machine =
        (Except.ok <$> g a) mid := by rw [Run.run_map, Run.run_bind, hr, Run.run_map]
    rw [hwhole, ← hnext fuel (Nat.le_trans (Nat.le_max_right ..) hfuel)]
    refine (Run.run_except_bind (x fuel) (fun a ↦ f a fuel) machine).trans ?_
    rw [hfirst]
  · refine ⟨enough, fun fuel hfuel ↦ ?_⟩
    have hfirst := hx fuel hfuel
    rw [Run.run_map, hr] at hfirst
    refine (Run.run_except_bind (x fuel) (fun a ↦ f a fuel) machine).trans ?_
    rw [hfirst, Run.run_map, Run.run_bind, hr]

theorem ends_inside (h : Ends x run) : Ends (inside x) run := by
  intro machine
  obtain ⟨enough, hx⟩ := h machine
  refine ⟨enough + 1, fun fuel hfuel ↦ ?_⟩
  obtain ⟨fuel, rfl⟩ := Nat.exists_eq_add_of_lt (Nat.zero_lt_of_lt hfuel)
  rw [Nat.zero_add]
  exact hx fuel (by omega)

end Fuelled

def Effects.fuelledCongruence (registry : Registry) : Congruence (fuelled registry) registry where
  rel x run := x.Ends run
  pure := Fuelled.ends_pure
  bind := Fuelled.ends_bind
  lookup _ _ := Fuelled.ends_lift _
  bindTo _ _ _ := Fuelled.ends_lift _
  create _ := Fuelled.ends_lift _
  builtin _ _ := Fuelled.ends_lift _
  enclose _ := Fuelled.ends_lift _
  record _ := Fuelled.ends_lift _
  abort _ := Fuelled.ends_lift _
  inside := Fuelled.ends_inside
  note := Fuelled.ends_pure

end Fuel

namespace Evaluation

/-- Nothing but calls can keep an evaluation from its end: if those that it makes end, then so does
it, and under every bound they do. The run under a bound is that under a greater one, with the same
value, text and frames, unless it is cut off at the limit of depth; and then what it has written
comes first in what is written under the greater bound. -/
theorem evaluate_under_bounds :
    (∀ (registry : Registry) (apply : Value → List Value → Run Value) (env : Address) (node : Node),
      Fuelled.Ends
        ((Effects.fuelled registry).root (fun callee args ↦ liftM (apply callee args)) env node)
        (root registry apply env node)) ∧
    (∀ (registry : Registry) (depth : Nat) (env : Address) (node : Node),
      Fuelled.Ends ((Effects.fuelled registry).evaluate depth env node)
        (node.evaluate registry depth env)) ∧
    ∀ (registry : Registry) (depth more : Nat) (env : Address) (node : Node),
      (node.evaluate registry depth env).Cuts (node.evaluate registry (depth + more) env) := by
  refine ⟨fun registry apply env node ↦ ?_, fun registry depth env node ↦ ?_, evaluate_cuts⟩
  · have happly : ∀ callee args, Fuelled.Ends (liftM (apply callee args)) (apply callee args) :=
      fun callee args ↦ Fuelled.ends_lift _
    exact Congruence.rel_root (C := Effects.fuelledCongruence registry) happly node
  · exact (Effects.fuelledCongruence registry).rel_evaluate depth env node

end Evaluation

end MonkeyLang
