import MonkeyLang.Proofs.Evaluation.Canonical
import MonkeyLang.Proofs.Evaluation.Guarded

/-!
Sessions: texts are evaluated one after the other, in environments that are made for them and stand
alone or inside one another. What one text binds, the later ones find.
-/

namespace MonkeyLang

/-- A step of a session, which counts its environments in the order of their making. A step that
names an environment which is not there does nothing. -/
inductive SessionStep
  | fresh
  | enclosed (outer : Nat)
  | text (registry : Registry) (env : Nat) (source : String)

/-- What the evaluation of a text ends with. -/
abbrev Outcome : Type := Except Abort (Option Value)

/-- What comes of a run under guard. A misstep is no outcome. -/
def Guarded.outcome {α : Type} (guarded : Guarded α) : Guarded (Except Abort α) := ExceptT.mk do
  match ← guarded.run.outcome with
  | .ok (.ok a) => return .ok (.ok a)
  | .ok (.error misstep) => return .error misstep
  | .error cause => return .ok (.error cause)

theorem Guarded.outcome_run {α : Type} (guarded : Guarded α) (machine : Machine) :
    guarded.outcome.run machine = match guarded.run machine with
      | .ok (.ok a) after => .ok (.ok (.ok a)) after
      | .ok (.error misstep) after => .ok (.error misstep) after
      | .error cause after => .ok (.ok (.error cause)) after := by
  refine (Run.run_bind _ _ machine).trans ?_
  rw [Run.outcome]
  rcases guarded.run machine with ⟨misstep | a, after⟩ | ⟨cause, after⟩ <;> rfl

namespace Session

section Steps

variable {m : Type → Type} [Monad m] [MonadLiftT Run m]
  (evaluate : Registry → Address → String → m Outcome)

/-- Takes the steps of a session whose environments so far are given, `evaluate` being the way to
evaluate a text. Gives the outcomes of the texts. -/
def take : List Address → List SessionStep → m (List Outcome)
  | _, [] => pure []
  | envs, .fresh :: steps => do
    let env ← liftM Run.newEnvironment
    take (envs ++ [env]) steps
  | envs, .enclosed outer :: steps =>
    match envs[outer]? with
    | some outer => do
      let env ← liftM (Run.enclose outer)
      take (envs ++ [env]) steps
    | none => take envs steps
  | envs, .text registry env source :: steps =>
    match envs[env]? with
    | some env => do
      let outcome ← evaluate registry env source
      return outcome :: (← take envs steps)
    | none => take envs steps

end Steps

/-- A session that begins with no environment. -/
def run (steps : List SessionStep) : Run (List Outcome) :=
  take (fun registry env source ↦ (evaluateText registry env source).outcome) [] steps

/-- A session ends, if the evaluations of its texts do. -/
theorem take_ends {evaluate : Registry → Address → String → Run Outcome}
    (h : ∀ registry env source machine, ∃ outcome after,
      evaluate registry env source machine = .ok outcome after)
    (envs : List Address) (steps : List SessionStep) (machine : Machine) :
    ∃ outcomes after, take evaluate envs steps machine = .ok outcomes after := by
  induction steps generalizing envs machine with
  | nil => exact ⟨[], machine, rfl⟩
  | cons step steps ih =>
    cases step with
    | fresh => exact ih _ _
    | enclosed outer =>
      rw [take]
      cases envs[outer]? with
      | none => exact ih _ _
      | some outer => exact ih _ _
    | text registry env source =>
      rw [take]
      cases envs[env]? with
      | none => exact ih _ _
      | some env =>
        obtain ⟨outcome, mid, hfirst⟩ := h registry env source machine
        obtain ⟨outcomes, after, hothers⟩ := ih envs mid
        refine ⟨outcome :: outcomes, after, ?_⟩
        dsimp only
        rw [Run.run_bind, hfirst]
        dsimp only
        rw [Run.run_bind, hothers]
        rfl

theorem run_ends (steps : List SessionStep) (machine : Machine) :
    ∃ outcomes after, run steps machine = .ok outcomes after := by
  refine take_ends (fun registry env source machine ↦ ?_) [] steps machine
  rw [Run.outcome]
  cases evaluateText registry env source machine with
  | ok value after => exact ⟨_, _, rfl⟩
  | error cause after => exact ⟨_, _, rfl⟩

/-- A session in which every text is evaluated under guard. -/
def guarded (guard : Guard) (steps : List SessionStep) : Guarded (List Outcome) :=
  take (fun registry env source ↦ (Guarded.evaluateText guard registry env source).outcome) [] steps

end Session

end MonkeyLang
