import MonkeyLang.Proofs.Evaluation.Canonical
import MonkeyLang.Proofs.Evaluation.Correspondence
import MonkeyLang.Proofs.Evaluation.InTurn

/-!
Evaluation is steady: what has been written and logged before makes no difference to it, and it only
adds to that. The same holds of the evaluation of a text; but only a text is ever rejected.
-/

namespace MonkeyLang

/-- The machine with something written and logged before all that it has. -/
def Machine.preceded (machine : Machine) (text : String) (log : Array LogRecord) : Machine :=
  { machine with output := text ++ machine.output, log := log ++ machine.log }

/-- The machine with nothing written and nothing logged. -/
def Machine.silent (machine : Machine) : Machine := { machine with output := "", log := #[] }

namespace Run

variable {α β : Type}

/-- The end of a run with something written and logged before it. -/
def precede (text : String) (log : Array LogRecord) :
    EStateM.Result Abort Machine α → EStateM.Result Abort Machine α
  | .ok a after => .ok a (after.preceded text log)
  | .error cause after => .error cause (after.preceded text log)

/-- The run goes the same way whatever has been written and logged before, and adds to it. -/
def Adds (run : Run α) : Prop :=
  ∀ machine text log, run (machine.preceded text log) = precede text log (run machine)

/-- The run only adds, and does not end with the rejection of a text. -/
structure Steady (run : Run α) : Prop where
  adds : run.Adds
  accepts (machine : Machine) (errors : List ParseError) (after : Machine) :
    run machine ≠ .error (.rejected errors) after

variable {run : Run α} {f : α → Run β}

theorem adds_throw (cause : Abort) : Adds (throw cause : Run α) := fun _ _ _ ↦ rfl

theorem adds_bind (h : run.Adds) (hf : ∀ a, run.MayGive a → (f a).Adds) : (run >>= f).Adds := by
  intro machine text log
  rw [run_bind, run_bind, h]
  cases hrun : run machine with
  | ok a after => exact hf a ⟨machine, after, hrun⟩ after text log
  | error cause after => rfl

theorem steady_modify {g : Machine → Machine}
    (h : ∀ machine text log, g (machine.preceded text log) = (g machine).preceded text log) :
    Steady (modify g) where
  adds machine text log := congrArg (EStateM.Result.ok ()) (h machine text log)
  accepts := nofun

theorem steady_record (entry : LogRecord) : (record entry).Steady :=
  steady_modify fun machine text log ↦ by simp [Machine.preceded]

theorem steady_write (text : String) : (write text).Steady :=
  steady_modify fun machine text log ↦ by simp [Machine.preceded, String.append_assoc]

theorem steady_bindName (env : Address) (name : String) (value : Value) :
    (bindName env name value).Steady := steady_modify fun _ _ _ ↦ rfl

theorem steady_lookup? (env : Address) (name : String) : (lookup? env name).Steady :=
  ⟨fun _ _ _ ↦ rfl, nofun⟩

theorem steady_freshId : freshId.Steady := ⟨fun _ _ _ ↦ rfl, nofun⟩

theorem steady_enclose (scope : Address) : (enclose scope).Steady := ⟨fun _ _ _ ↦ rfl, nofun⟩

theorem steady_pure (a : α) : Steady (pure a : Run α) := ⟨fun _ _ _ ↦ rfl, nofun⟩

theorem steady_throw {cause : Abort} (h : cause.OfEvaluation) : Steady (throw cause : Run α) where
  adds := adds_throw cause
  accepts machine errors after he := by
    cases he
    exact h errors rfl

theorem steady_bind (h : run.Steady) (hf : ∀ a, run.MayGive a → (f a).Steady) :
    (run >>= f).Steady where
  adds := adds_bind h.adds fun a ha ↦ (hf a ha).adds
  accepts machine errors after he := by
    rw [run_bind] at he
    cases hrun : run machine with
    | ok a mid =>
      rw [hrun] at he
      exact (hf a ⟨machine, mid, hrun⟩).accepts mid errors after he
    | error cause mid =>
      rw [hrun] at he
      cases he
      exact h.accepts machine errors after hrun

end Run

open Run

/-- Every step of evaluation is steady. -/
def Effects.steadyCongruence (registry : Registry) : Congruence (plain registry) registry where
  rel _ run := run.Steady
  pure := steady_pure
  bind := steady_bind
  lookup env name := by
    refine steady_bind (steady_lookup? env name) fun found _ ↦ ?_
    split
    · exact steady_pure _
    · split <;> exact steady_pure _
  bindTo env target value := by
    unfold Evaluation.bindTo
    split
    · exact steady_bindName _ _ _
    · exact steady_bindName _ _ _
    · exact steady_pure _
    · exact steady_pure _
    · exact steady_throw nofun
  create _ := steady_bind steady_freshId fun _ _ ↦ steady_pure _
  builtin :=
    builtin_induction steady_pure (fun h hf ↦ steady_bind h fun a _ ↦ hf a) steady_write
      steady_freshId
  enclose := steady_enclose
  record := steady_record
  abort := steady_throw
  inside := id
  note := steady_pure

namespace Evaluation

variable {registry : Registry} {env : Address} {text : String}

theorem evaluate_steady (registry : Registry) (depth : Nat) (env : Address) (node : Node) :
    (node.evaluate registry depth env).Steady :=
  (Effects.steadyCongruence registry).rel_evaluate depth env node

theorem recordErrors_adds (parsed : Parsed) : (recordErrors parsed).Adds := by
  rw [recordErrors]
  generalize parsed.errors = errors
  induction errors with
  | nil => exact (steady_pure ()).adds
  | cons cause others ih => exact adds_bind (steady_record _).adds fun _ _ ↦ ih

theorem evaluateText_adds (registry : Registry) (env : Address) (text : String) :
    (evaluateText registry env text).Adds := by
  refine adds_bind (recordErrors_adds _) fun _ _ ↦ ?_
  split
  · exact adds_throw _
  · exact (evaluate_steady registry maxDepth env _).adds

/-- A text that cannot be read is rejected, and nothing comes of it but records in the log. -/
theorem evaluateText_of_not_read (h : (parse text).errors ≠ []) (registry : Registry)
    (env : Address) (machine : Machine) :
    ∃ after, evaluateText registry env text machine = .error (.rejected (parse text).errors) after ∧
      after.silent = machine.silent ∧ after.output = machine.output := by
  obtain ⟨log, hrecord⟩ := recordErrors_run (parse text) machine
  refine ⟨{ machine with log := log }, ?_, rfl, rfl⟩
  rw [evaluateText, run_bind, hrecord, Parsed.toExcept, if_neg (mt List.isEmpty_iff.mp h)]
  rfl

end Evaluation

end MonkeyLang
