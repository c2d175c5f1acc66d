import MonkeyLang.Proofs.Evaluation.Steady
import MonkeyLang.Proofs.Session.Sound

/-!
The answers of a session in one environment, text by text: what each evaluation ends with and what
it writes. They do not depend on what has been written or logged before, and a text that is rejected
could as well be a blank one, but for its own answer.
-/

namespace MonkeyLang

/-- What comes of a text: what its evaluation ends with, and what has been written on the way. -/
structure Answer where
  outcome : Outcome
  written : String

/-- The text has been evaluated to its end, or it has been rejected. -/
def Answer.settled (answer : Answer) : Bool :=
  match answer.outcome with
  | .ok _ | .error (.rejected _) => true
  | .error _ => false

namespace Session

open Run Evaluation

/-- Evaluates a text. -/
def answer (env : Address) (text : String) (machine : Machine) : Answer × Machine :=
  let (outcome, written, after) := machine.perform (evaluateText .standard env text)
  (⟨outcome, written⟩, after)

/-- Evaluates texts one after the other in one environment. -/
def answers (env : Address) : List String → Machine → List Answer
  | [], _ => []
  | text :: others, machine =>
    (answer env text machine).1 :: answers env others (answer env text machine).2

/-- The answers of a session with one environment, to the texts that are evaluated in it. -/
def answersTo (texts : List String) : List Answer :=
  match newEnvironment .initial with
  | .ok env machine => answers env texts machine
  | .error .. => []

variable {env : Address} {text : String} {texts : List String} {machine machine' : Machine}

/-- The text is evaluated in the same way behind what has been written so far. -/
theorem outcome_eq_answer (env : Address) (text : String) (machine : Machine) : ∃ after,
    (evaluateText .standard env text).outcome machine =
        .ok (answer env text machine).1.outcome after ∧
      after.output = machine.output ++ (answer env text machine).1.written ∧
      after.silent = (answer env text machine).2.silent := by
  have hadds := evaluateText_adds .standard env text { machine with output := "" }
    machine.output #[]
  have hmachine : { machine with output := "" }.preceded machine.output #[] = machine := by
    simp [Machine.preceded]
  rw [hmachine] at hadds
  rw [Run.outcome, hadds, answer, Machine.perform]
  rcases evaluateText .standard env text { machine with output := "" } with
    ⟨value, after⟩ | ⟨cause, after⟩
  · exact ⟨_, rfl, rfl, rfl⟩
  · exact ⟨_, rfl, rfl, rfl⟩

theorem answer_congr (h : machine.silent = machine'.silent) :
    (answer env text machine).1 = (answer env text machine').1 ∧
      (answer env text machine).2.silent = (answer env text machine').2.silent := by
  have hsilent : ∀ machine : Machine,
      { machine with output := "" } = machine.silent.preceded "" machine.log := by
    simp [Machine.preceded, Machine.silent]
  rw [answer, answer, Machine.perform, Machine.perform, hsilent, hsilent, ← h,
    evaluateText_adds, evaluateText_adds]
  rcases evaluateText .standard env text machine.silent with ⟨value, after⟩ | ⟨cause, after⟩
  · exact ⟨rfl, rfl⟩
  · exact ⟨rfl, rfl⟩

theorem answers_congr (texts : List String) (h : machine.silent = machine'.silent) :
    answers env texts machine = answers env texts machine' := by
  induction texts generalizing machine machine' with
  | nil => rfl
  | cons text others ih =>
    obtain ⟨hanswer, hafter⟩ := answer_congr h
    rw [answers, answers, hanswer, ih hafter]

theorem answer_of_not_read (h : (parse text).errors ≠ []) (env : Address) (machine : Machine) :
    (answer env text machine).1 = ⟨.error (.rejected (parse text).errors), ""⟩ ∧
      (answer env text machine).2.silent = machine.silent := by
  obtain ⟨after, hrun, hafter, houtput⟩ :=
    evaluateText_of_not_read h .standard env { machine with output := "" }
  rw [answer, Machine.perform, hrun]
  exact ⟨congrArg _ houtput, hafter⟩

theorem answer_blank (env : Address) (machine : Machine) :
    (answer env "\n" machine).1 = ⟨.ok none, ""⟩ ∧
      (answer env "\n" machine).2.silent = machine.silent := by
  have hparse : parse "\n" = ⟨[], []⟩ := rfl
  rw [answer, Machine.perform, evaluateText, hparse]
  exact ⟨rfl, rfl⟩

/-- In the place of a text that is rejected a blank one changes no other answer. -/
theorem answers_set {i : Nat} (htext : texts[i]? = some text) (h : (parse text).errors ≠ [])
    (env : Address) (machine : Machine) :
    (answers env texts machine)[i]? = some ⟨.error (.rejected (parse text).errors), ""⟩ ∧
      answers env (texts.set i "\n") machine =
        (answers env texts machine).set i ⟨.ok none, ""⟩ := by
  induction texts generalizing i machine with
  | nil => cases htext
  | cons first others ih =>
    cases i with
    | zero =>
      obtain rfl := Option.some.inj htext
      obtain ⟨hanswer, hafter⟩ := answer_of_not_read h env machine
      obtain ⟨hblank, hbehind⟩ := answer_blank env machine
      rw [answers, List.set_cons_zero, answers, hanswer, hblank,
        answers_congr others (hbehind.trans hafter.symm)]
      exact ⟨rfl, rfl⟩
    | succ i =>
      obtain ⟨hanswer, hset⟩ := ih htext (answer env first machine).2
      rw [answers, List.set_cons_succ, answers, hset]
      exact ⟨hanswer, rfl⟩

/-- The steps of a session with one environment. -/
def stepsOf (texts : List String) : List SessionStep := .fresh :: texts.map (.text .standard 0)

/-- A session that goes on in the environment ends with the outcomes of the answers, and has written
what was written for them. -/
theorem take_eq_answers (env : Address) (texts : List String) (machine : Machine) : ∃ after,
    take (fun registry env source ↦ (evaluateText registry env source).outcome) [env]
        (texts.map (.text .standard 0)) machine =
          .ok ((answers env texts machine).map Answer.outcome) after ∧
      after.output =
        machine.output ++ String.join ((answers env texts machine).map Answer.written) := by
  induction texts generalizing machine with
  | nil => exact ⟨machine, rfl, String.append_empty.symm⟩
  | cons text others ih =>
    obtain ⟨mid, hrun, hmid, hsilent⟩ := outcome_eq_answer env text machine
    obtain ⟨after, hothers, hafter⟩ := ih mid
    refine ⟨after, ?_, ?_⟩
    · rw [List.map_cons, take, List.getElem?_cons_zero]
      dsimp only
      rw [run_bind, hrun]
      dsimp only
      rw [run_bind, hothers, answers, answers_congr others hsilent]
      rfl
    · rw [hafter, hmid, answers, List.map_cons, String.join_cons, String.append_assoc,
        answers_congr others hsilent]

theorem run_eq_answers (texts : List String) : ∃ after,
    run (stepsOf texts) .initial = .ok ((answersTo texts).map Answer.outcome) after ∧
      after.output = String.join ((answersTo texts).map Answer.written) := by
  obtain ⟨after, hrun, hafter⟩ := take_eq_answers Store.empty.nextAddress texts
    { Machine.initial with store := Store.empty.addFrame [] }
  exact ⟨after, hrun, hafter.trans String.empty_append⟩

/-- No text has an answer but one that is settled, or one that the limit of depth has cut off. -/
theorem settled_or_limit (texts : List String) : ∀ answer ∈ answersTo texts,
    answer.settled = true ∨ answer.outcome = .error .depthLimit := by
  intro answer hm
  let I : Invariant Extent .lenient :=
    .standing .lenient (fun _ ↦ True) (fun _ _ ↦ trivial) (fun _ _ ↦ trivial) (fun _ _ ↦ rfl)
  obtain ⟨outcomes, after, _, hrun, -, -, hsound⟩ :=
    I.session_ends (fun _ ↦ rfl) ⟨rfl, .empty⟩ (stepsOf texts)
  obtain ⟨_, heq, -⟩ := run_eq_answers texts
  cases hrun.symm.trans heq
  have hanswer := hsound _ (List.mem_map_of_mem hm)
  rw [Answer.settled]
  cases houtcome : answer.outcome with
  | ok found => exact .inl rfl
  | error cause =>
    rw [houtcome] at hanswer
    cases cause with
    | rejected => exact .inl rfl
    | depthLimit => exact .inr rfl
    | _ => cases hanswer

end Session

end MonkeyLang
