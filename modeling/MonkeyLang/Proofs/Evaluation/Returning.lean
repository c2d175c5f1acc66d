import MonkeyLang.Proofs.Evaluation.Confined
import MonkeyLang.Proofs.Evaluation.Watched
import MonkeyLang.Proofs.Node.Discipline

/-!
When evaluation agrees with evaluation under watch: from every machine whose environments are
confined to values that the regime admits both lead to the same machine and to the same value, or
the one wraps the value with which the other leaves.
-/

namespace MonkeyLang

/-- Whether a value is neither a fault nor a wrapped result and, if it is a function, its body is
disciplined. -/
def Value.isDisciplined : Value → Bool
  | .error _ | .returned .. => false
  | .function _ _ body _ => body.disciplined false
  | _ => true

/-- Only disciplined functions, and neither faults nor wrapped results, can be reached from an
environment. -/
def Store.Disciplined (store : Store) (env : Address) : Prop :=
  ∀ value, store.Reaches env value → value.isDisciplined = true

namespace Regime

/-- Whether a regime lets a value be bound or stored, if it lets its parts be. -/
def admits (regime : Regime) : Value → Prop
  | .error _ => False
  | .returned _ value => regime = loose ∧ value.isReturned = false
  | .function _ _ body _ => regime = loose ∨ body.disciplined false
  | _ => True

variable (regime : Regime) (E : Address → Prop)

/-- The value and all its parts may be bound and stored. -/
abbrev Keeps : Value → Prop := Value.Within E regime.admits

/-- What an expression or a statement can give. Only one with a return statement in it, as `returns`
says, gives a wrapped result that may not be bound. -/
def Fits (returns : Prop) (value : Value) : Prop :=
  (∃ fault, value = .error fault) ∨ regime.Keeps E value ∨
    regime = strict ∧ returns ∧ ∃ id inner, value = .returned id inner ∧ regime.Keeps E inner

/-- The result of a run is that of a run under watch, and satisfies `P`; or the latter leaves with a
value and the former gives that value wrapped, as `wrap` says. The loose regime may also come upon a
wrapped result that is wrapped again, or that a call gives as a statement. -/
def Follows {α : Type} (returns : Prop) (wrap : Value → α) (P : α → Prop)
    (result : EStateM.Result Abort Machine α) :
    EStateM.Result Abort Machine (Except Departure α) → Prop
  | .ok (.ok a) after => result = .ok a after ∧ P a ∧ after.store.Confined E (regime.Keeps E)
  | .ok (.error (.leave value)) after => regime = leaving ∧ returns ∧ regime.Keeps E value ∧
    (∃ id, result = .ok (wrap (.returned id value)) after) ∧ after.store.Confined E (regime.Keeps E)
  | .ok (.error (.misuse use)) _ => regime = loose ∧ (use = .nested ∨ use = .ended)
  | .error cause after => result = .error cause after ∧ after.store.Confined E (regime.Keeps E)

def Agrees {α : Type} (returns : Prop) (wrap : Value → α) (P : α → Prop) (run : Run α)
    (watcher : Watcher α) : Prop :=
  ∀ machine, machine.store.Confined E (regime.Keeps E) →
    regime.Follows E returns wrap P (run machine) (watcher.run machine)

end Regime

namespace Regime

variable {regime : Regime} {E : Address → Prop} {α β : Type} {returns returns' : Prop}
  {wrap : Value → α} {wrap' : Value → β} {P P' : α → Prop} {Q : β → Prop} {run : Run α}
  {watcher : Watcher α} {k : α → Run β} {k' : α → Watcher β} {value : Value}

section Agrees

theorem agrees_pure {a : α} (h : P a) : regime.Agrees E returns wrap P (pure a) (pure a) :=
  fun _ hstore ↦ ⟨rfl, h, hstore⟩

theorem agrees_abort (cause : Abort) :
    regime.Agrees E returns wrap P (throw cause) (Watcher.abort cause) :=
  fun _ hstore ↦ ⟨rfl, hstore⟩

/-- Runs that agree are gone on from in the same way; a wrapped result with which the one leaves is
passed on by the other. -/
theorem agrees_bind (h : regime.Agrees E returns wrap P run watcher)
    (hk : ∀ a, P a → regime.Agrees E returns' wrap' Q (k a) (k' a))
    (hleave : returns → returns' ∧
      ∀ id value, k (wrap (.returned id value)) = pure (wrap' (.returned id value))) :
    regime.Agrees E returns' wrap' Q (run >>= k) (watcher >>= k') := by
  intro machine hstore
  have hrun := h machine hstore
  rw [Run.run_bind, Run.run_except_bind]
  rcases hw : watcher.run machine with ⟨departure | a, after⟩ | ⟨cause, after⟩
  · rw [hw] at hrun
    cases departure with
    | leave value =>
      obtain ⟨hregime, hreturns, hvalue, ⟨id, hr⟩, hafter⟩ := hrun
      obtain ⟨hreturns', hpass⟩ := hleave hreturns
      rw [hr]
      simp only [hpass]
      exact ⟨hregime, hreturns', hvalue, ⟨id, rfl⟩, hafter⟩
    | misuse use => exact hrun
  · rw [hw] at hrun
    obtain ⟨hr, ha, hafter⟩ := hrun
    rw [hr]
    exact hk a ha after hafter
  · rw [hw] at hrun
    obtain ⟨hr, hafter⟩ := hrun
    rw [hr]
    exact ⟨rfl, hafter⟩

/-- A step that never leaves is the same on both sides. -/
theorem agrees_lift_bind {run : Run α} (h : run.Gives (Store.Confined E (regime.Keeps E)) P)
    (hk : ∀ a, P a → regime.Agrees E returns' wrap' Q (k a) (k' a)) :
    regime.Agrees E returns' wrap' Q (run >>= k) (liftM run >>= k') := by
  intro machine hstore
  have hrun := h machine hstore
  rw [Run.run_bind, Run.run_except_bind, Run.run_except_lift]
  cases hr : run machine with
  | ok a after =>
    rw [hr] at hrun
    exact hk a hrun.1 after hrun.2
  | error cause after =>
    rw [hr] at hrun
    exact ⟨rfl, hrun⟩

theorem agrees_lift {run : Run α} (h : run.Gives (Store.Confined E (regime.Keeps E)) P) :
    regime.Agrees E returns wrap P run (liftM run) := by
  have hbind : regime.Agrees E returns wrap P (run >>= pure) (liftM run >>= pure) :=
    agrees_lift_bind h fun _ ha ↦ agrees_pure ha
  rwa [bind_pure, bind_pure] at hbind

theorem Agrees.mono (h : regime.Agrees E returns wrap P run watcher)
    (hreturns : regime = leaving → returns → returns') (hP : ∀ a, P a → P' a) :
    regime.Agrees E returns' wrap P' run watcher := by
  intro machine hstore
  have hrun := h machine hstore
  rcases hw : watcher.run machine with ⟨departure | a, after⟩ | ⟨cause, after⟩
  · rw [hw] at hrun
    cases departure with
    | leave value =>
      obtain ⟨hregime, hr, hrest⟩ := hrun
      exact ⟨hregime, hreturns hregime hr, hrest⟩
    | misuse use => exact hrun
  · rw [hw] at hrun
    exact ⟨hrun.1, hP a hrun.2.1, hrun.2.2⟩
  · rw [hw] at hrun
    exact hrun

end Agrees

section Values

theorem fits_error (fault : Fault) : regime.Fits E returns (.error fault) := .inl ⟨fault, rfl⟩

theorem fits_data (hscope : value.scope? = none) (hparts : value.parts = [])
    (h : regime.admits value) : regime.Fits E returns value :=
  .inr (.inl (.intro h (by simp [hscope]) (by simp [hparts])))

theorem admits_of_isPlain (value : Value) (h : value.isPlain = true) : regime.admits value := by
  cases value with
  | error | returned | function => cases h
  | _ => trivial

theorem fits_of_within (h : (∃ fault, value = .error fault) ∨ regime.Keeps E value) :
    regime.Fits E returns value := h.imp_right .inl

theorem fits_computed (h : value.Computed) : regime.Fits E returns value :=
  fits_of_within (h.within admits_of_isPlain)

theorem Fits.mono (h : regime.Fits E returns value)
    (hreturns : regime ≠ loose → returns → returns') : regime.Fits E returns' value :=
  h.imp_right fun h ↦ h.imp_right fun h ↦ ⟨h.1, hreturns (by rw [h.1]; decide) h.2.1, h.2.2⟩

theorem Fits.getD {value : Option Value} (h : ∀ v ∈ value, regime.Fits E returns v) :
    regime.Fits E returns (value.getD .null) := by
  cases value with
  | none => exact fits_data rfl rfl trivial
  | some v => exact h v rfl

theorem admits_iff (h : regime ≠ loose) : regime.admits value ↔ value.isDisciplined = true := by
  cases value <;> simp [admits, Value.isDisciplined, h]

theorem isError_eq_false (h : regime.Keeps E value) : value.isError = false := by
  cases value with
  | error => exact h.self.elim
  | _ => rfl

theorem eq_loose (h : regime.Keeps E value) (hr : value.isReturned = true) : regime = loose := by
  cases value with
  | returned => exact h.self.1
  | _ => cases hr

theorem eq_loose_of_fits (h : regime.Fits E returns value) (hnot : ¬ returns)
    (hr : value.isReturned = true) : regime = loose := by
  rcases h with ⟨fault, rfl⟩ | h | ⟨_, hreturns, _⟩
  · cases hr
  · exact eq_loose h hr
  · exact absurd hreturns hnot

theorem isReturned_of_leaving (h : leaving.Fits E returns value) : value.isReturned = false := by
  rcases h with ⟨fault, rfl⟩ | h | ⟨hl, _⟩
  · rfl
  · exact Bool.eq_false_iff.mpr fun hr ↦ nomatch eq_loose h hr
  · cases hl

/-- In every regime a sequence of statements ends where evaluation ends it. -/
theorem stops_eq (h : regime.Fits E returns value) : regime.stops value = value.endsSequence := by
  rcases h with ⟨fault, rfl⟩ | h | ⟨rfl, _⟩
  · cases regime <;> rfl
  · cases value with
    | error => exact h.self.elim
    | returned => rw [h.self.1, stops]; simp
    | _ => cases regime <;> rfl
  · rfl

theorem keeps_of_not_endsSequence (h : regime.Fits E returns value)
    (hends : value.endsSequence = false) : regime.Keeps E value := by
  rcases h with ⟨fault, rfl⟩ | h | ⟨_, _, id, inner, rfl, _⟩
  · cases hends
  · exact h
  · cases hends

/-- What is left of a result where it arrives is not wrapped any more. -/
theorem fits_unwrap (h : regime.Fits E returns value) :
    regime.Fits E returns' value.unwrap ∧ value.unwrap.isReturned = false := by
  rcases h with ⟨fault, rfl⟩ | h | ⟨rfl, _, id, inner, rfl, h⟩
  · exact ⟨fits_error fault, rfl⟩
  · cases value with
    | returned id inner => exact ⟨.inr (.inl (h.of_mem (List.mem_cons_self ..))), h.self.2⟩
    | _ => exact ⟨.inr (.inl h), rfl⟩
  · exact ⟨.inr (.inl h), Bool.eq_false_iff.mpr fun hr ↦ nomatch eq_loose h hr⟩

end Values

section Check

theorem check_eq_pure {use : Use} (h : value.isReturned = false) :
    regime.check use value = pure () := by
  cases value with
  | returned => cases h
  | _ => rfl

/-- A use that only the loose regime may come upon is looked at before it is made. -/
theorem agrees_check {use : Use} {run : Run β} {k : Unit → Watcher β} (huse : use ≠ .yielded)
    (h : value.isReturned = true → regime = loose)
    (hk : (regime.forbids use = true → value.isReturned = false) →
      regime.Agrees E returns' wrap' Q run (k ())) :
    regime.Agrees E returns' wrap' Q run (regime.check use value >>= k) := by
  cases hr : value.isReturned with
  | false =>
    rw [check_eq_pure hr, pure_bind]
    exact hk fun _ ↦ hr
  | true =>
    obtain rfl := h hr
    cases value with
    | returned id inner =>
      cases hforbids : forbids loose use with
      | false =>
        rw [check, hforbids, if_neg Bool.false_ne_true, pure_bind]
        exact hk fun hf ↦ absurd (hforbids.symm.trans hf) Bool.false_ne_true
      | true =>
        rw [check, hforbids, if_pos rfl]
        refine fun _ _ ↦ ⟨rfl, ?_⟩
        simpa [forbids, huse] using hforbids
    | _ => cases hr

/-- A value that is looked at and then used is no fault. -/
theorem agrees_operand {use : Use} {exit : Value → β} {run : Run Value} {watcher : Watcher Value}
    {k : Value → Run β} {k' : Value → Watcher β} {wrap : Value → Value}
    (h : regime.Agrees E returns wrap (regime.Fits E returns) run watcher) (hnot : ¬ returns)
    (huse : use ≠ .yielded) (hexit : ∀ fault, Q (exit (.error fault)))
    (hk : ∀ value, regime.Keeps E value → (regime.forbids use = true → value.isReturned = false) →
      regime.Agrees E returns' wrap' Q (k value) (k' value)) :
    regime.Agrees E returns' wrap' Q
      (run >>= fun value ↦ if value.isError = true then pure (exit value) else k value)
      (watcher >>= fun value ↦ regime.check use value >>= fun _ ↦
        if value.isError = true then pure (exit value) else k' value) := by
  refine agrees_bind h (fun value hvalue ↦ ?_) fun hr ↦ absurd hr hnot
  rcases hvalue with ⟨fault, rfl⟩ | hvalue | ⟨_, hr, _⟩
  · rw [check_eq_pure rfl, pure_bind]
    exact agrees_pure (hexit fault)
  · refine agrees_check huse (eq_loose hvalue) fun hforbids ↦ ?_
    rw [isError_eq_false hvalue]
    exact hk value hvalue hforbids
  · exact absurd hr hnot

/-- A return statement wraps its value, or leaves with it. -/
theorem agrees_leave {value : Value} (h : regime.Keeps E value) (hr : value.isReturned = false) :
    regime.Agrees E True some (fun wrapped ↦ ∀ v ∈ wrapped, regime.Fits E True v)
      (some <$> Run.newReturned value) (regime.leave value) := by
  have hwraps : (∀ id, regime.Fits E True (.returned id value)) →
      regime.Agrees E True some (fun wrapped ↦ ∀ v ∈ wrapped, regime.Fits E True v)
        (some <$> Run.newReturned value) (some <$> liftM (Run.newReturned value)) := by
    intro hfits
    rw [map_eq_pure_bind, map_eq_pure_bind]
    exact agrees_lift_bind (Run.gives_create hfits) fun _ hwrapped ↦
      agrees_pure (by simpa using hwrapped)
  cases regime with
  | loose =>
    refine hwraps fun id ↦ .inr (.inl (.intro ⟨rfl, hr⟩ (by simp [Value.scope?]) fun part hm ↦ ?_))
    rw [List.mem_singleton.mp hm]
    exact h
  | strict => exact hwraps fun id ↦ .inr (.inr ⟨rfl, trivial, id, value, rfl, h⟩)
  | leaving => exact fun machine hstore ↦ ⟨rfl, trivial, h, ⟨machine.created, rfl⟩, hstore⟩

/-- Where a return statement has brought evaluation to an end, its value arrives on both sides. -/
theorem agrees_arrive {run : Run (Option Value)} {watcher : Watcher (Option Value)}
    (h : regime.Agrees E returns some (fun value ↦ ∀ v ∈ value, regime.Fits E returns v) run
      watcher) :
    regime.Agrees E False some
      (fun value ↦ ∀ v ∈ value, regime.Fits E False v ∧ v.isReturned = false)
      (Option.map Value.unwrap <$> run) (regime.arrive watcher) := by
  have hunwrap : regime ≠ leaving →
      regime.Agrees E False some
        (fun value ↦ ∀ v ∈ value, regime.Fits E False v ∧ v.isReturned = false)
        (Option.map Value.unwrap <$> run) (Option.map Value.unwrap <$> watcher) := by
    intro hne
    rw [map_eq_pure_bind, map_eq_pure_bind]
    have hnever : regime.Agrees E False some (fun value ↦ ∀ v ∈ value, regime.Fits E returns v) run
        watcher := h.mono (fun hl ↦ absurd hl hne) fun _ hvalue ↦ hvalue
    refine agrees_bind hnever (fun value hvalue ↦ agrees_pure fun v hv ↦ ?_) False.elim
    obtain ⟨w, hw, rfl⟩ := Option.map_eq_some_iff.mp hv
    exact fits_unwrap (hvalue w hw)
  cases regime with
  | loose => exact hunwrap (by decide)
  | strict => exact hunwrap (by decide)
  | leaving =>
    intro machine hstore
    have hrun := h machine hstore
    rw [map_eq_pure_bind, Run.run_bind, arrive, Run.run_except_tryCatch]
    rcases hw : watcher.run machine with ⟨departure | value, after⟩ | ⟨cause, after⟩
    · rw [hw] at hrun
      cases departure with
      | leave value =>
        obtain ⟨_, _, hvalue, ⟨id, hr⟩, hafter⟩ := hrun
        rw [hr]
        refine ⟨rfl, fun v hv ↦ ?_, hafter⟩
        obtain rfl := Option.some.inj hv
        exact ⟨.inr (.inl hvalue), Bool.eq_false_iff.mpr fun hr ↦ nomatch eq_loose hvalue hr⟩
      | misuse use => exact nomatch hrun.1
    · rw [hw] at hrun
      obtain ⟨hr, hvalue, hafter⟩ := hrun
      have hsame : value.map Value.unwrap = value := by
        cases value with
        | none => rfl
        | some v =>
          have hreturned := isReturned_of_leaving (hvalue v rfl)
          rw [Option.map_some, Value.unwrap_eq_self hreturned]
      rw [hr]
      refine ⟨by simp only [hsame]; rfl, fun v hv ↦ ?_, hafter⟩
      have hreturned := isReturned_of_leaving (hvalue v hv)
      exact ⟨Value.unwrap_eq_self hreturned ▸ (fits_unwrap (hvalue v hv)).1, hreturned⟩
    · rw [hw] at hrun
      obtain ⟨hr, hafter⟩ := hrun
      rw [hr]
      exact ⟨rfl, hafter⟩

end Check

end Regime

end MonkeyLang
