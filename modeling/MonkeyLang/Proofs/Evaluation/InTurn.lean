import MonkeyLang.CommandLine
import MonkeyLang.Proofs.Evaluation.Simulation
import MonkeyLang.Proofs.Reading.Concatenation

/-!
Joined texts mean what the texts mean one behind the other: to evaluate them as one program is to
evaluate each of them in the same environment, up to the first one that ends with a fault or a
wrapped result.
-/

namespace MonkeyLang

/-- Runs may differ in their logs only. -/
def Likeness.exact : Likeness := .upTo Eq

theorem Likeness.exact_reflexive : exact.Reflexive := upTo_reflexive fun _ ↦ rfl

theorem Likeness.exact_exact : exact.Exact :=
  { ids := id, addresses := id, tokens := id, texts := id, visible := fun _ ↦ rfl }

/-- The run with an empty log behind it. -/
def Run.unlogged {α : Type} (run : Run α) : Run α := fun machine ↦
  match run machine with
  | .ok a after => .ok a { after with log := #[] }
  | .error cause after => .error cause { after with log := #[] }

/-- Evaluates the statements of a text. A wrapped result is not unwrapped. -/
def evaluateStatements (registry : Registry) (env : Address) (text : String) :
    Run (Option Value) := do
  let parsed := parse text
  Run.recordErrors parsed
  match parsed.toExcept with
  | .error errors => throw (.rejected errors)
  | .ok nodes => do
    Run.record (.evaluatingProgram nodes.length)
    Evaluation.statements registry (Evaluation.apply registry maxDepth) env nodes none

/-- Evaluates texts in turn, up to the first one that has a statement with a fault or a wrapped
result. The value is that of the last text which has statements. -/
def evaluateInTurn (registry : Registry) (env : Address) : List String → Run (Option Value)
  | [] => pure none
  | text :: others => do
    let first ← evaluateStatements registry env text
    if first.any Value.endsSequence then return first.map Value.unwrap
    let second ← evaluateInTurn registry env others
    return if others.all fun other ↦ (parse other).statements.isEmpty then first else second

namespace CommandLine

/-- Evaluates the texts of several files in turn in one new environment, the canonical text of all
their statements written before if asked for. -/
def evaluateFiles (texts : List String) (showTree : Bool) : Run (Option Value) := do
  let program : Node := .program (texts.flatMap fun text ↦ (parse text).statements)
  if showTree then Run.write (program.text ++ "\n\n")
  let env ← Run.newEnvironment
  evaluateInTurn .standard env texts

/-- The text of a file, read with one kind of line ends. -/
def unified (content : String) : String := String.ofList (unifyLineEnds content.toList)

/-- The report without the log. -/
def Report.unlogged (report : Report) : Report := { report with log := [] }

end CommandLine

namespace Evaluation

open Run

variable {registry : Registry} {env : Address} {text : String} {texts : List String}

theorem unlogged_eq_of_simulates {α : Type} {run run' : Run α}
    (h : Simulates .exact Eq run run') : run.unlogged = run'.unlogged := by
  funext machine
  rw [unlogged, unlogged]
  rcases (h machine machine (.refl Likeness.exact_reflexive machine)).cases with
    ⟨a, after, _, after', hr, hr', rfl, hlike⟩ | ⟨cause, after, after', hr, hr', hlike⟩
  · rw [hr, hr', hlike.eq Likeness.exact_exact Likeness.exact_reflexive]
  · rw [hr, hr', hlike.eq Likeness.exact_exact Likeness.exact_reflexive]

theorem simulates_record_left {α : Type} {L : Likeness} {r : α → α → Prop} {run run' : Run α}
    (entry : LogRecord) (h : Simulates L r run run') :
    Simulates L r (record entry >>= fun _ ↦ run) run' :=
  fun _ _ hm ↦ h _ _ ⟨hm.store, hm.created, hm.output⟩

theorem simulates_record_right {α : Type} {L : Likeness} {r : α → α → Prop} {run run' : Run α}
    (entry : LogRecord) (h : Simulates L r run run') :
    Simulates L r run (record entry >>= fun _ ↦ run') :=
  fun _ _ hm ↦ h _ _ ⟨hm.store, hm.created, hm.output⟩

/-- Evaluation does not depend on the log. -/
theorem simulates_statements_exact (depth : Nat) (nodes : List Node) :
    Simulates .exact Eq (statements registry (apply registry depth) env nodes none)
      (statements registry (apply registry depth) env nodes none) := by
  have hregistry : SameVisible .exact registry registry := fun _ _ ↦ rfl
  have hnodes : List.Forall₂ (Node.Like .exact) nodes nodes :=
    List.forall₂_same.mpr fun node _ ↦ .refl Likeness.exact_reflexive node
  have hself : Simulates .exact (Option.Rel (Value.Like .exact))
      (statements registry (apply registry depth) env nodes none)
      (statements registry (apply registry depth) env nodes none) :=
    simulates_statements hregistry (simulates_apply hregistry depth) rfl nodes hnodes .none
  refine hself.mono fun value value' hvalue ↦ ?_
  cases hvalue with
  | none => rfl
  | some hvalue => rw [hvalue.eq Likeness.exact_exact.toLiteral]

theorem statements_append {apply : Value → List Value → Run Value} (nodes others : List Node)
    {last : Option Value} (hlast : last.any Value.endsSequence = false) :
    statements registry apply env (nodes ++ others) last =
      statements registry apply env nodes last >>= fun value ↦
        if value.any Value.endsSequence then pure value
        else statements registry apply env others value := by
  induction nodes generalizing last with
  | nil => simp [statements, hlast]
  | cons node nodes ih =>
    simp only [List.cons_append, statements, bind_assoc]
    congr 1
    funext value
    by_cases hends : value.any Value.endsSequence = true
    · simp only [hends, if_true, pure_bind]
    · simp only [hends, if_false, Bool.false_eq_true]
      exact ih (by simpa using hends)

/-- Of the value before a sequence nothing is left behind the first statement. -/
theorem statements_of_ne_nil {apply : Value → List Value → Run Value} {nodes : List Node}
    (h : nodes ≠ []) (last : Option Value) :
    statements registry apply env nodes last = statements registry apply env nodes none := by
  obtain ⟨node, others, rfl⟩ := List.exists_cons_of_ne_nil h
  rw [statements, statements]

theorem map_unwrap_of_not_endsSequence {value : Option Value}
    (h : ¬ value.any Value.endsSequence = true) : value.map Value.unwrap = value := by
  cases value with
  | none => rfl
  | some value =>
    cases value with
    | returned => exact absurd rfl h
    | _ => rfl

/-- Evaluation of a text that can be read. -/
theorem evaluateStatements_of_errors (h : (parse text).errors = []) :
    evaluateStatements registry env text = (do
      Run.record (.evaluatingProgram (parse text).statements.length)
      statements registry (apply registry maxDepth) env (parse text).statements none) := by
  rw [evaluateStatements, recordErrors, Parsed.toExcept, h]
  rfl

theorem evaluateText_eq_map (registry : Registry) (env : Address) (text : String) :
    evaluateText registry env text =
      Option.map Value.unwrap <$> evaluateStatements registry env text := by
  rw [evaluateText, evaluateStatements, map_bind]
  congr 1
  funext _
  cases (parse text).toExcept with
  | error errors => rfl
  | ok nodes =>
    change program registry (apply registry maxDepth) env nodes = _
    rw [program, map_bind]
    congr 1

theorem simulates_evaluateInTurn (h : ∀ text ∈ texts, (parse text).errors = []) :
    Simulates .exact Eq
      (Option.map Value.unwrap <$> statements registry (apply registry maxDepth) env
        (texts.flatMap fun text ↦ (parse text).statements) none)
      (evaluateInTurn registry env texts) := by
  induction texts with
  | nil => exact simulates_pure rfl
  | cons text others ih =>
    obtain ⟨htext, hothers⟩ := List.forall_mem_cons.mp h
    rw [List.flatMap_cons, statements_append _ _ rfl, map_bind, evaluateInTurn,
      evaluateStatements_of_errors htext]
    have hfirst : Simulates .exact Eq
        (statements registry (apply registry maxDepth) env (parse text).statements none) _ :=
      simulates_record_right (.evaluatingProgram (parse text).statements.length)
        (simulates_statements_exact maxDepth _)
    refine simulates_bind hfirst fun value _ hvalue ↦ ?_
    subst hvalue
    by_cases hends : value.any Value.endsSequence = true
    · rw [if_pos hends, if_pos hends, map_pure]
      exact simulates_pure rfl
    · rw [if_neg hends, if_neg hends]
      have hall : (others.all fun other ↦ (parse other).statements.isEmpty) = true ↔
          (others.flatMap fun text ↦ (parse text).statements) = [] := by
        rw [List.all_eq_true, List.flatMap_eq_nil_iff]
        exact forall₂_congr fun _ _ ↦ List.isEmpty_iff
      by_cases hnil : (others.flatMap fun text ↦ (parse text).statements) = []
      · have hrest := ih hothers
        rw [hnil, statements] at hrest ⊢
        rw [map_pure, map_unwrap_of_not_endsSequence hends]
        simp only [hall.mpr hnil, if_true]
        exact simulates_bind hrest fun _ _ _ ↦ simulates_pure rfl
      · simp only [mt hall.mp hnil, Bool.false_eq_true, if_false, bind_pure]
        rw [statements_of_ne_nil hnil]
        exact ih hothers

theorem evaluate_program (registry : Registry) (depth : Nat) (env : Address) (nodes : List Node) :
    (Node.program nodes).evaluate registry depth env = (do
      Run.record (.evaluatingProgram nodes.length)
      Option.map Value.unwrap <$>
        statements registry (apply registry depth) env nodes none) := by
  change program registry (apply registry depth) env nodes = _
  rw [program]
  congr 1

theorem evaluateText_of_errors (h : (parse text).errors = []) :
    evaluateText registry env text = (parse text).program.evaluate registry maxDepth env := by
  rw [evaluateText, recordErrors, Parsed.toExcept, h]
  rfl

/-- To evaluate the statements of several texts as one program is to evaluate the texts in turn. -/
theorem simulates_program_inTurn (h : ∀ text ∈ texts, (parse text).errors = []) :
    Simulates .exact Eq
      ((Node.program (texts.flatMap fun text ↦ (parse text).statements)).evaluate registry
        maxDepth env)
      (evaluateInTurn registry env texts) := by
  rw [evaluate_program]
  exact simulates_record_left _ (simulates_evaluateInTurn h)

theorem evaluateInTurn_singleton (registry : Registry) (env : Address) (text : String) :
    evaluateInTurn registry env [text] = evaluateText registry env text := by
  rw [evaluateText_eq_map, evaluateInTurn, map_eq_pure_bind]
  congr 1
  funext value
  by_cases hends : value.any Value.endsSequence = true
  · rw [if_pos hends]
  · rw [if_neg hends, map_unwrap_of_not_endsSequence hends, evaluateInTurn, pure_bind]
    rfl

/-- The second of two texts is evaluated unless a statement of the first one ends the sequence. -/
theorem evaluateText_append {other : String} (h : Complete text)
    (hother : (parse other).errors = []) :
    (evaluateText registry env (text ++ other)).unlogged = Run.unlogged (do
      let first ← evaluateStatements registry env text
      if first.any Value.endsSequence then return first.map Value.unwrap
      let second ← evaluateText registry env other
      return if (parse other).statements.isEmpty then first else second) := by
  obtain ⟨hstatements, herrors⟩ := h.parse_append other
  have hread : ∀ source ∈ [text, other], (parse source).errors = [] := by
    intro source hs
    simp only [List.mem_cons, List.not_mem_nil, or_false] at hs
    rcases hs with rfl | rfl
    · exact h.errors
    · exact hother
  have hturn : Simulates .exact Eq _ (evaluateInTurn registry env [text, other]) :=
    simulates_program_inTurn hread
  rw [evaluateText_of_errors (herrors.trans hother), Parsed.program, hstatements]
  rw [List.flatMap_cons, List.flatMap_singleton, evaluateInTurn, evaluateInTurn_singleton] at hturn
  simp only [List.all_cons, List.all_nil, Bool.and_true] at hturn
  exact unlogged_eq_of_simulates hturn

end Evaluation

namespace CommandLine

open Run Evaluation

variable {read : String → Option String} {paths contents init : List String} {last : String}

theorem simulates_newEnvironment {L : Likeness} :
    Simulates L L.addresses newEnvironment newEnvironment :=
  fun _ _ hm ↦ ⟨hm.store.next 0, hm.store.addFrame .nil, hm.created, hm.output⟩

theorem simulates_evaluateFiles {texts : List String} (h : ∀ text ∈ texts, (parse text).errors = [])
    (showTree : Bool) :
    Simulates .exact Eq
      (evaluateProgram (.program (texts.flatMap fun text ↦ (parse text).statements)) showTree)
      (evaluateFiles texts showTree) := by
  have hnew : Simulates .exact Eq
      (newEnvironment >>= fun env ↦ (Node.program (texts.flatMap fun text ↦
        (parse text).statements)).evaluate .standard maxDepth env)
      (newEnvironment >>= fun env ↦ evaluateInTurn .standard env texts) := by
    refine simulates_bind simulates_newEnvironment fun env env' henv ↦ ?_
    obtain rfl : env = env' := henv
    exact simulates_program_inTurn h
  rw [evaluateProgram, evaluateFiles]
  cases showTree with
  | false => exact hnew
  | true => exact simulates_bind (simulates_write _) fun _ _ _ ↦ hnew

theorem unlogged_ofResult {α : Type} (finish : α → Nat × String) (run : Run α)
    (machine : Machine) :
    (Report.ofResult finish (run machine)).unlogged =
      .ofResult finish (run.unlogged machine) := by
  rw [Run.unlogged]
  cases run machine <;> rfl

theorem sourceOf_eq (h : paths.map read = contents.map some) :
    sourceOf read paths = .ok (String.join (contents.map unified)) := by
  induction paths generalizing contents with
  | nil =>
    cases contents with
    | nil => rfl
    | cons => cases h
  | cons path paths ih =>
    cases contents with
    | nil => cases h
    | cons content contents =>
      obtain ⟨hread, hothers⟩ := List.cons.inj h
      rw [sourceOf, hread, ih hothers, List.map_cons, String.join_cons]
      rfl

/-- Files that are complete, but for the last one, are run as one by one in a shared environment. -/
theorem runFiles_eq (h : paths.map read = contents.map some)
    (htexts : contents.map unified = init ++ [last]) (hinit : ∀ text ∈ init, Complete text)
    (showTree : Bool) (hlast : (parse last).errors = []) :
    (runFiles read paths showTree).unlogged =
      .ofResult finish ((evaluateFiles (init ++ [last]) showTree).unlogged .initial) := by
  obtain ⟨hstatements, herrors⟩ := parse_join hinit last
  have hread : ∀ text ∈ init ++ [last], (parse text).errors = [] := by
    intro text ht
    rcases List.mem_append.mp ht with ht | ht
    · exact (hinit text ht).errors
    · rw [List.mem_singleton.mp ht]
      exact hlast
  rw [runFiles, sourceOf_eq h, htexts]
  dsimp only
  rw [runSource, herrors, hlast, if_pos List.isEmpty_nil, unlogged_ofResult, Parsed.program,
    hstatements, unlogged_eq_of_simulates (simulates_evaluateFiles hread showTree)]

theorem runFiles_of_errors (h : paths.map read = contents.map some)
    (htexts : contents.map unified = init ++ [last]) (hinit : ∀ text ∈ init, Complete text)
    (showTree : Bool) (hlast : (parse last).errors ≠ []) :
    runFiles read paths showTree = runSource last showTree := by
  obtain ⟨hstatements, herrors⟩ := parse_join hinit last
  rw [runFiles, sourceOf_eq h, htexts]
  dsimp only
  rw [runSource, runSource, herrors, if_neg (by simpa using hlast), if_neg (by simpa using hlast)]

end CommandLine

end MonkeyLang
