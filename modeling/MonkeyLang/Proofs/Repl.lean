import MonkeyLang.Proofs.Repl.Lines
import MonkeyLang.Proofs.Session.Answers

/-!
A dialogue is a session: behind each prompt stands what the session gives for the line, and a line
that is rejected leaves no trace but its complaint.
-/

namespace MonkeyLang.Repl

open Run Session Evaluation

/-- What stands behind the prompt for a line with this answer. -/
def shown (answer : Answer) : String :=
  answer.written ++ match answer.outcome with
    | .ok (some value) => value.inspect ++ "\n"
    | .error (.rejected errors) => complaint errors
    | _ => ""

/-- Prompts, each but the last one with what stands behind it. -/
def transcript (shown : List String) : String :=
  String.join (shown.map (prompt ++ ·)) ++ prompt ++ "\n"

/-- What a dialogue does with the outcome of a line. -/
def conclude : Outcome → Run Unit
  | .ok (some value) => write (value.inspect ++ "\n")
  | .ok none => pure ()
  | .error (.rejected errors) => write (complaint errors)
  | .error cause => throw cause

variable {env : Address} {line : String} {lines : List String} {machine : Machine}

/-- A line is evaluated as a text of a session, since evaluation itself rejects nothing. -/
theorem answer_eq_conclude (env : Address) (line : String) :
    answer env line = (evaluateText .standard env line).outcome >>= conclude := by
  funext machine
  rw [run_bind, Run.outcome]
  by_cases herrors : (parse line).errors = []
  · have hrecord : recordErrors (parse line) = pure () := by rw [recordErrors, herrors]; rfl
    rw [answer, hrecord, pure_bind, herrors, if_pos List.isEmpty_nil, run_bind,
      evaluateText_of_errors herrors]
    rcases hrun : (parse line).program.evaluate .standard maxDepth env machine with
      ⟨_ | value, after⟩ | ⟨cause, after⟩
    · rfl
    · rfl
    · cases cause with
      | rejected errors =>
        have hsteady := evaluate_steady .standard maxDepth env (parse line).program
        exact absurd hrun (hsteady.accepts machine errors after)
      | _ => rfl
  · obtain ⟨log, hrecord⟩ := recordErrors_run (parse line) machine
    rw [answer, evaluateText, run_bind, run_bind, hrecord]
    dsimp only
    rw [if_neg (mt List.isEmpty_iff.mp herrors), Parsed.toExcept,
      if_neg (mt List.isEmpty_iff.mp herrors)]
    rfl

/-- A settled answer is written behind what has been written. -/
theorem answer_of_settled (h : (Session.answer env line machine).1.settled = true) : ∃ after,
    answer env line machine = .ok () after ∧
      after.output = machine.output ++ shown (Session.answer env line machine).1 ∧
      after.silent = (Session.answer env line machine).2.silent := by
  obtain ⟨mid, hrun, houtput, hsilent⟩ := outcome_eq_answer env line machine
  rw [answer_eq_conclude, run_bind, hrun, ← hsilent]
  rw [shown, ← String.append_assoc, ← houtput]
  rw [Answer.settled] at h
  rcases houtcome : (Session.answer env line machine).1.outcome with cause | (_ | value)
  · rw [houtcome] at h
    cases cause with
    | rejected errors => exact ⟨_, rfl, rfl, rfl⟩
    | _ => cases h
  · exact ⟨mid, rfl, String.append_empty.symm, rfl⟩
  · exact ⟨_, rfl, rfl, rfl⟩

theorem answer_of_unsettled {cause : Abort}
    (h : (Session.answer env line machine).1.settled = false)
    (hcause : (Session.answer env line machine).1.outcome = .error cause) :
    ∃ after, answer env line machine = .error cause after := by
  obtain ⟨mid, hrun, -, -⟩ := outcome_eq_answer env line machine
  rw [answer_eq_conclude, run_bind, hrun, hcause]
  rw [Answer.settled, hcause] at h
  cases cause with
  | rejected => cases h
  | _ => exact ⟨mid, rfl⟩

theorem transcript_cons (first : String) (others : List String) :
    transcript (first :: others) = prompt ++ first ++ transcript others := by
  simp [transcript, String.append_assoc]

/-- The prompt makes no difference to the line behind it. -/
theorem converse_cons (env : Address) (line : String) (others : List String) (machine : Machine) :
    ∃ prompted : Machine, prompted.output = machine.output ++ prompt ∧
      prompted.silent = machine.silent ∧
      converse env (line :: others) machine =
        (answer env line >>= fun _ ↦ converse env others) prompted :=
  ⟨{ machine with output := machine.output ++ prompt }, rfl, rfl, rfl⟩

/-- By induction on the lines, each of which is answered behind what the ones before have left. -/
theorem converse_of_settled (h : ∀ a ∈ answers env lines machine, a.settled = true) : ∃ after,
    converse env lines machine = .ok () after ∧
      after.output = machine.output ++ transcript ((answers env lines machine).map shown) := by
  induction lines generalizing machine with
  | nil => exact ⟨_, rfl, rfl⟩
  | cons line others ih =>
    obtain ⟨prompted, hprompt, hsilent, hconverse⟩ := converse_cons env line others machine
    rw [← answers_congr _ hsilent] at h ⊢
    obtain ⟨hfirst, hothers⟩ := List.forall_mem_cons.mp h
    obtain ⟨mid, hanswer, hmid, hbehind⟩ := answer_of_settled hfirst
    rw [← answers_congr _ hbehind] at hothers
    obtain ⟨after, hrun, hafter⟩ := ih hothers
    refine ⟨after, ?_, ?_⟩
    · rw [hconverse, run_bind, hanswer]
      exact hrun
    · rw [hafter, hmid, hprompt, answers, List.map_cons, transcript_cons, answers_congr _ hbehind]
      simp only [String.append_assoc]

/-- The first answer that is not settled breaks off the dialogue. -/
theorem converse_of_unsettled (h : ∃ a ∈ answers env lines machine, a.settled = false) :
    ∃ a ∈ answers env lines machine, ∃ cause after, a.settled = false ∧ a.outcome = .error cause ∧
      converse env lines machine = .error cause after := by
  induction lines generalizing machine with
  | nil =>
    obtain ⟨a, hm, -⟩ := h
    cases hm
  | cons line others ih =>
    obtain ⟨prompted, -, hsilent, hconverse⟩ := converse_cons env line others machine
    rw [← answers_congr _ hsilent] at h ⊢
    cases hfirst : (Session.answer env line prompted).1.settled with
    | true =>
      obtain ⟨mid, hanswer, -, hbehind⟩ := answer_of_settled hfirst
      obtain ⟨a, hm, hunsettled⟩ := h
      rw [answers, ← answers_congr _ hbehind] at hm ⊢
      rcases List.mem_cons.mp hm with rfl | hm
      · cases hfirst.symm.trans hunsettled
      · obtain ⟨a, hm, cause, after, ha, hcause, hrun⟩ := ih ⟨a, hm, hunsettled⟩
        refine ⟨a, List.mem_cons_of_mem _ hm, cause, after, ha, hcause, ?_⟩
        rw [hconverse, run_bind, hanswer]
        exact hrun
    | false =>
      rcases hcause : (Session.answer env line prompted).1.outcome with cause | found
      · obtain ⟨after, hanswer⟩ := answer_of_unsettled hfirst hcause
        refine ⟨_, List.mem_cons_self, cause, after, hfirst, hcause, ?_⟩
        rw [hconverse, run_bind, hanswer]
      · rw [Answer.settled, hcause] at hfirst
        cases hfirst

/-- What a session shows for the lines of a dialogue. -/
def blocks (input : String) : List String := (answersTo (linesOf input)).map shown

theorem run_of_settled {input : String}
    (h : ∀ a ∈ answersTo (linesOf input), a.settled = true) : ∃ after,
    run input .initial = .ok () after ∧ after.output = transcript (blocks input) := by
  obtain ⟨after, hrun, hafter⟩ := converse_of_settled h
  exact ⟨after, hrun, hafter.trans String.empty_append⟩

theorem run_of_unsettled {input : String}
    (h : ∃ a ∈ answersTo (linesOf input), a.settled = false) :
    ∃ a ∈ answersTo (linesOf input), a.outcome = .error .depthLimit ∧
      ∃ after, run input .initial = .error .depthLimit after := by
  obtain ⟨a, hm, cause, after, hunsettled, hcause, hrun⟩ := converse_of_unsettled h
  have hlimit := (settled_or_limit _ a hm).resolve_left (Bool.eq_false_iff.mp hunsettled)
  obtain rfl : cause = .depthLimit := Except.error.inj (hcause.symm.trans hlimit)
  exact ⟨a, hm, hcause, after, hrun⟩

/-- A blank line in the place of one that is rejected takes its complaint from what is shown. -/
theorem run_of_blanked {input line : String} {i : Nat}
    (h : ∀ a ∈ answersTo (linesOf input), a.settled = true)
    (hline : (linesOf input)[i]? = some line) (herrors : (parse line).errors ≠ []) :
    (blocks input)[i]? = some (complaint (parse line).errors) ∧ ∃ after,
      run (String.join ((linesOf input).set i "\n")) .initial = .ok () after ∧
        after.output = transcript ((blocks input).set i "") := by
  obtain ⟨hanswer, hset⟩ := answers_set hline herrors _ _
  have hanswers : answersTo (linesOf (String.join ((linesOf input).set i "\n"))) =
      (answersTo (linesOf input)).set i ⟨.ok none, ""⟩ := by
    rw [linesOf_set]
    exact hset
  have hcomplaint : (blocks input)[i]? = some (complaint (parse line).errors) := by
    refine (List.getElem?_map ..).trans ((congrArg _ hanswer).trans ?_)
    exact congrArg some String.empty_append
  have hsettled : ∀ a ∈ answersTo (linesOf (String.join ((linesOf input).set i "\n"))),
      a.settled = true := by
    rw [hanswers]
    intro a hm
    rcases List.mem_or_eq_of_mem_set hm with hm | rfl
    · exact h a hm
    · rfl
  obtain ⟨after, hrun, houtput⟩ := run_of_settled hsettled
  refine ⟨hcomplaint, after, hrun, ?_⟩
  rw [houtput, blocks, hanswers, List.map_set]
  rfl

end MonkeyLang.Repl
