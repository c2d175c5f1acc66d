import MonkeyLang.Proofs.Evaluation.Simulation
import MonkeyLang.Proofs.RoundTrip
import MonkeyLang.Session

/-!
A text and its canonical form mean the same: evaluation does not depend on the tokens that trees
store, also not on those of functions that were made before.
-/

namespace MonkeyLang

/-- Runs may differ in the tokens of trees only. -/
def Likeness.upToTokens : Likeness := .upTo fun _ _ ↦ True

theorem Likeness.upToTokens_reflexive : upToTokens.Reflexive := upTo_reflexive fun _ ↦ trivial

/-- What comes of a run. It is seen where the run was started, and what was done stays done. -/
def Run.outcome {α : Type} (run : Run α) : Run (Except Abort α) := fun machine ↦
  match run machine with
  | .ok a after => .ok (.ok a) after
  | .error cause after => .ok (.error cause) after

/-- Evaluates texts in turn, each in an environment of its own choice. A text that is rejected or
whose evaluation is broken off does not keep the later ones from being evaluated. -/
def evaluateAll (registry : Registry) :
    List (Address × String) → Run (List (Except Abort (Option Value)))
  | [] => pure []
  | (env, text) :: others => do
    let first ← (evaluateText registry env text).outcome
    return first :: (← evaluateAll registry others)

/-- The second text is the first one or, if all of that can be read, its canonical form. -/
def Rewritten (text text' : String) : Prop :=
  text' = text ∨ (parse text).errors = [] ∧ text' = (parse text).program.text

/-- The runs have ended in the same way, with values that are alike. -/
def Likeness.SameOutcome (L : Likeness) :
    Except Abort (Option Value) → Except Abort (Option Value) → Prop
  | .ok value, .ok value' => Option.Rel (Value.Like L) value value'
  | .error cause, .error cause' => cause = cause'
  | _, _ => False

namespace Evaluation

open Run

variable {L : Likeness} {registry : Registry} {env : Address}

/-- To record errors changes nothing but the log. -/
theorem recordErrors_run (parsed : Parsed) (machine : Machine) :
    ∃ log, recordErrors parsed machine = .ok () { machine with log := log } := by
  rw [recordErrors]
  generalize parsed.errors = errors
  induction errors generalizing machine with
  | nil => exact ⟨machine.log, rfl⟩
  | cons cause others ih => exact ih { machine with log := machine.log.push (.parseError cause) }

theorem simulates_recordErrors (parsed parsed' : Parsed) :
    Simulates L (fun _ _ ↦ True) (recordErrors parsed) (recordErrors parsed') := by
  intro machine machine' hm
  obtain ⟨log, hrun⟩ := recordErrors_run parsed machine
  obtain ⟨log', hrun'⟩ := recordErrors_run parsed' machine'
  rw [hrun, hrun']
  exact ⟨trivial, hm.store, hm.created, hm.output⟩

theorem simulates_evaluateText (henv : L.addresses env env) {text text' : String}
    (herrors : (parse text).errors = (parse text').errors)
    (hstatements : List.Forall₂ (Node.Like L) (parse text).statements (parse text').statements) :
    Simulates L (Option.Rel (Value.Like L)) (evaluateText registry env text)
      (evaluateText registry env text') := by
  refine simulates_bind (simulates_recordErrors _ _) fun _ _ _ ↦ ?_
  rw [Parsed.toExcept, Parsed.toExcept, herrors]
  by_cases hempty : (parse text').errors.isEmpty = true
  · rw [if_pos hempty, if_pos hempty]
    exact simulates_program (fun _ _ ↦ rfl) maxDepth henv hstatements
  · rw [if_neg hempty, if_neg hempty]
    exact simulates_throw _

theorem simulates_outcome {run run' : Run (Option Value)}
    (h : Simulates L (Option.Rel (Value.Like L)) run run') :
    Simulates L L.SameOutcome run.outcome run'.outcome := by
  intro machine machine' hm
  rw [outcome, outcome]
  rcases (h machine machine' hm).cases with ⟨value, after, value', after', hr, hr', hvalue, hlike⟩ |
    ⟨cause, after, after', hr, hr', hlike⟩ <;> rw [hr, hr']
  · exact ⟨hvalue, hlike⟩
  · exact ⟨rfl, hlike⟩

/-- The canonical form of a text has the same statements up to their tokens. -/
theorem statements_like_canonical {text : String} :
    List.Forall₂ (Node.Like .upToTokens) (parse text).statements
      (parse (parse text).program.text).statements := by
  have huntoken := (readsBack_of_readable.2 text).2.1
  have hlike : (parse text).program.Like .upToTokens (parse (parse text).program.text).program :=
    (parse_readable text).like (fun _ _ ↦ trivial) (fun _ ↦ rfl) huntoken.symm
  exact hlike.statements

theorem simulates_evaluateText_of_rewritten {text text' : String} (h : Rewritten text text') :
    Simulates .upToTokens (Option.Rel (Value.Like .upToTokens)) (evaluateText registry env text)
      (evaluateText registry env text') := by
  rcases h with rfl | ⟨herrors, rfl⟩
  · exact simulates_evaluateText rfl rfl
      (List.forall₂_same.mpr fun node _ ↦ .refl Likeness.upToTokens_reflexive node)
  · exact simulates_evaluateText rfl (herrors.trans (readsBack_of_readable.2 text).1.symm)
      statements_like_canonical

theorem simulates_evaluateAll {steps steps' : List (Address × String)}
    (h : List.Forall₂ (Prod.RProd Eq Rewritten) steps steps') :
    Simulates .upToTokens (List.Forall₂ Likeness.upToTokens.SameOutcome)
      (evaluateAll registry steps) (evaluateAll registry steps') := by
  induction h with
  | nil => exact simulates_pure .nil
  | cons h _ ih =>
    cases h with
    | @intro env text _ text' henv htext =>
      obtain rfl := henv
      have hfirst : Simulates .upToTokens (Option.Rel (Value.Like .upToTokens))
          (evaluateText registry env text) (evaluateText registry env text') :=
        simulates_evaluateText_of_rewritten htext
      refine simulates_bind (simulates_outcome hfirst) fun _ _ houtcome ↦ ?_
      exact simulates_bind ih fun _ _ houtcomes ↦ simulates_pure (.cons houtcome houtcomes)

/-- To evaluate the canonical form of a text in place of the text gives the same output, the same
outcome and the same bindings in all frames, up to the tokens in the trees of functions. The same
holds if this is done with some of several texts, of which the later ones may call functions that
the earlier ones have made. Indeed no evaluation depends on the tokens in trees. -/
theorem evaluate_canonical (registry : Registry) :
    (∀ (env : Address) {text : String}, (parse text).errors = [] →
      Simulates .upToTokens (Option.Rel (Value.Like .upToTokens)) (evaluateText registry env text)
        (evaluateText registry env (parse text).program.text)) ∧
    (∀ {steps steps' : List (Address × String)},
      List.Forall₂ (Prod.RProd Eq Rewritten) steps steps' →
      Simulates .upToTokens (List.Forall₂ Likeness.upToTokens.SameOutcome)
        (evaluateAll registry steps) (evaluateAll registry steps')) ∧
    ∀ (depth : Nat) (env : Address) {node node' : Node}, node.Like .upToTokens node' →
      Simulates .upToTokens (Option.Rel (Value.Like .upToTokens))
        (node.evaluate registry depth env) (node'.evaluate registry depth env) := by
  refine ⟨fun env text herrors ↦ ?_, simulates_evaluateAll, fun depth env node node' h ↦ ?_⟩
  · exact simulates_evaluateText_of_rewritten (.inr ⟨herrors, rfl⟩)
  · exact simulates_evaluate (fun _ _ ↦ rfl) depth rfl h

/-- The canonical form of the first text makes a function with other tokens, which the second text
calls. -/
theorem evaluate_canonical_called :
    let text := "let f = fn(x) \x7b puts(x); if (x < 1) \x7b return 007 \x7d x \x7d"
    let machine : Machine := ⟨Store.empty.addFrame [], 0, "", #[]⟩
    (parse text).errors = [] ∧ (parse text).program.text ≠ text ∧
      Likeness.upToTokens.SameEnd (List.Forall₂ Likeness.upToTokens.SameOutcome)
        (evaluateAll .standard [(0, text), (0, "f(f(0))")] machine)
        (evaluateAll .standard [(0, (parse text).program.text), (0, "f(f(0))")] machine) := by
  intro text machine
  have herrors : (parse text).errors = [] := by decide +kernel
  have hrewritten : List.Forall₂ (Prod.RProd Eq Rewritten) [(0, text), (0, "f(f(0))")]
      [(0, (parse text).program.text), (0, "f(f(0))")] :=
    .cons (.intro rfl (.inr ⟨herrors, rfl⟩)) (.cons (.intro rfl (.inl rfl)) .nil)
  refine ⟨herrors, by decide +kernel, ?_⟩
  exact (evaluate_canonical .standard).2.1 hrewritten machine machine
    (.refl Likeness.upToTokens_reflexive machine)

end Evaluation

end MonkeyLang
