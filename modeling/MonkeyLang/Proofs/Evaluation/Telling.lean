import MonkeyLang.Proofs.Evaluation.Chronicle
import MonkeyLang.Proofs.Evaluation.Correspondence

/-!
The chronicle of a session tells what the session does: it disturbs nothing, and every value that
comes up has been made before, as the very same value.
-/

namespace MonkeyLang

namespace History.Fits

variable {history : History} {machine after : Machine}

theorem initial : History.empty.Fits .initial where
  faithful := .empty
  created := rfl
  bound _ hm := nomatch hm

/-- The chronicle fits as long as nothing is made and nothing unknown is bound. -/
theorem of_bound (h : history.Fits machine) (hcreated : after.created = machine.created)
    (hbound : ∀ value ∈ after.store.values, history.Known value) : history.Fits after :=
  ⟨h.faithful, h.created.trans hcreated.symm, hbound⟩

theorem addFrame (h : history.Fits machine) (outer : List Address) :
    history.Fits { machine with store := machine.store.addFrame outer } :=
  h.of_bound rfl fun value hm ↦ h.bound value (Store.mem_values_addFrame hm)

theorem bind (h : history.Fits machine) {value : Value} (hvalue : history.Known value)
    (env : Address) (name : String) :
    history.Fits { machine with store := machine.store.bind env name value } := by
  refine h.of_bound rfl fun bound hm ↦ ?_
  rcases Store.mem_values_bind hm with rfl | hm
  · exact hvalue
  · exact h.bound bound hm

theorem made (h : history.Fits machine) {value : Value} (hid : value.id? = some machine.created)
    (hparts : ∀ part ∈ value.parts, history.Known part) :
    (history.add (.made machine.store value)).Fits
      { machine with created := machine.created + 1 } where
  faithful := h.faithful.add ⟨h.bound, hid.trans (congrArg some h.created.symm), hparts⟩
  created := by rw [births_made, List.length_append, h.created, List.length_singleton]
  bound value hm := (h.bound value hm).mono (history.le_add _)

theorem seen (h : history.Fits machine) {value : Value} (hvalue : history.Known value) :
    (history.add (.seen machine.store value)).Fits machine where
  faithful := h.faithful.add ⟨h.bound, hvalue⟩
  created := by rw [births_seen, h.created]
  bound value hm := (h.bound value hm).mono (history.le_add _)

end History.Fits

/-- The computation goes as the run does. What it tells comes behind what has been told and fits,
and its result has the property in view of all that. -/
def Chronicled.Tells {α : Type} (history : History) (P : History → α → Prop) (x : Chronicled α)
    (run : Run α) : Prop :=
  ∀ machine, history.Fits machine → ∃ history', history ≤ history' ∧
    history'.Fits (run.behind machine) ∧ match run machine with
      | .ok a after => x (machine, history) = .ok a (after, history') ∧ P history' a
      | .error cause after => x (machine, history) = .error cause (after, history')

namespace Chronicled

variable {α β : Type} {history : History} {P : History → α → Prop} {Q : History → β → Prop}
  {x : Chronicled α} {run : Run α} {f : α → Chronicled β} {g : α → Run β}

theorem tells_pure {a : α} (h : P history a) : Tells history P (pure a) (pure a) :=
  fun _ hfits ↦ ⟨history, le_rfl, hfits, rfl, h⟩

theorem tells_bind (h : Tells history P x run)
    (hf : ∀ history' a, history ≤ history' → P history' a → Tells history' Q (f a) (g a)) :
    Tells history Q (x >>= f) (run >>= g) := by
  intro machine hfits
  obtain ⟨history', hle, hfits', hx⟩ := h machine hfits
  rw [Run.behind_bind, Run.run_bind, bind_apply x]
  rcases hr : run machine with ⟨a, mid⟩ | ⟨cause, mid⟩ <;> rw [hr] at hx
  · rw [Run.behind_ok hr] at hfits'
    obtain ⟨history'', hle', hfits'', hnext⟩ := hf history' a hle hx.2 mid hfits'
    rw [hx.1]
    exact ⟨history'', le_trans hle hle', hfits'', hnext⟩
  · rw [Run.behind_error hr] at hfits'
    rw [hx]
    exact ⟨history', hle, hfits', rfl⟩

section Lift

theorem lift_bind (run : Run α) (g : α → Run β) :
    (liftM (run >>= g) : Chronicled β) = (liftM run >>= fun a ↦ liftM (g a)) := by
  funext state
  have hlift : ∀ {γ : Type} (run : Run γ) (state : Machine × History),
      (liftM run : Chronicled γ) state = match run state.1 with
        | .ok a after => .ok a (after, state.2)
        | .error cause after => .error cause (after, state.2) := fun _ _ ↦ rfl
  rw [bind_apply, hlift, hlift, Run.run_bind]
  cases run state.1 with
  | ok a after => exact (hlift (g a) (after, state.2)).symm
  | error cause after => rfl

theorem tells_lift_pure {a : α} (h : P history a) :
    Tells history P (liftM (pure a : Run α)) (pure a) := tells_pure h

theorem tells_lift_bind (h : Tells history P (liftM run) run)
    (hg : ∀ history' a, history ≤ history' → P history' a →
      Tells history' Q (liftM (g a)) (g a)) :
    Tells history Q (liftM (run >>= g)) (run >>= g) := by
  rw [lift_bind]
  exact tells_bind h hg

theorem tells_throw (cause : Abort) :
    Tells history P (liftM (throw cause : Run α)) (throw cause) :=
  fun _ hfits ↦ ⟨history, le_rfl, hfits, rfl⟩

theorem tells_record (entry : LogRecord) :
    Tells history (fun _ _ ↦ True) (liftM (Run.record entry)) (Run.record entry) :=
  fun _ hfits ↦ ⟨history, le_rfl, hfits.of_bound rfl hfits.bound, rfl, trivial⟩

theorem tells_writeLines (values : List Value) :
    Tells history (fun _ _ ↦ True) (liftM (Builtin.writeLines values))
      (Builtin.writeLines values) := by
  induction values generalizing history with
  | nil => exact tells_lift_pure trivial
  | cons value others ih =>
    have hwrite : ∀ text,
        Tells history (fun _ _ ↦ True) (liftM (Run.write text)) (Run.write text) :=
      fun _ _ hfits ↦ ⟨history, le_rfl, hfits.of_bound rfl hfits.bound, rfl, trivial⟩
    exact tells_lift_bind (hwrite _) fun _ _ _ _ ↦ ih

theorem tells_addFrame (outer : Store → List Address) :
    Tells history (fun _ _ ↦ True) (liftM (Run.addFrame fun store ↦ store.addFrame (outer store)))
      (Run.addFrame fun store ↦ store.addFrame (outer store)) :=
  fun _ hfits ↦ ⟨history, le_rfl, hfits.addFrame _, rfl, trivial⟩

theorem tells_lookup (registry : Registry) (env : Address) (name : String) :
    Tells history History.Known (liftM (Evaluation.lookup registry env name))
      (Evaluation.lookup registry env name) := by
  have hfound : Tells history (fun history found ↦ ∀ value ∈ found, history.Known value)
      (liftM (Run.lookup? env name)) (Run.lookup? env name) := fun _ hfits ↦
    ⟨history, le_rfl, hfits, rfl, fun value hm ↦ hfits.bound value (Store.mem_values_of_get? hm)⟩
  refine tells_lift_bind hfound fun history' found _ hknown ↦ ?_
  split
  · exact tells_lift_pure (hknown _ rfl)
  · split <;> exact tells_lift_pure (.plain rfl rfl)

theorem tells_bindTo {value : Value} (h : history.Known value) (env : Address) (target : Node) :
    Tells history (fun _ _ ↦ True) (liftM (Evaluation.bindTo env target value))
      (Evaluation.bindTo env target value) := by
  have hname : ∀ name, Tells history (fun _ _ ↦ True) (liftM (Run.bindName env name value))
      (Run.bindName env name value) :=
    fun name _ hfits ↦ ⟨history, le_rfl, hfits.bind h env name, rfl, trivial⟩
  unfold Evaluation.bindTo
  split
  · exact hname _
  · exact hname _
  · exact tells_lift_pure trivial
  · exact tells_lift_pure trivial
  · exact tells_throw _

end Lift

theorem tells_create {make : Nat → Value} (hid : ∀ id, (make id).id? = some id)
    (hparts : ∀ id, ∀ inner ∈ (make id).parts, history.Known inner) :
    Tells history History.Known (create make) (do return make (← Run.freshId)) := by
  intro machine hfits
  refine ⟨_, history.le_add _, hfits.made (hid _) (hparts _), rfl, ?_⟩
  exact .made ((hid _).trans (congrArg some hfits.created.symm)) (hparts _)

theorem tells_note {value : Value} (h : history.Known value) :
    Tells history History.Known (note value) (pure value) :=
  fun _ hfits ↦ ⟨_, history.le_add _, hfits.seen h, rfl, h.mono (history.le_add _)⟩

theorem known_getD {found : Option Value} {array : Value} (h : history.Known array)
    (hfound : ∀ value ∈ found, value ∈ array.parts) : history.Known (found.getD .null) := by
  cases found with
  | none => exact .plain rfl rfl
  | some value => exact h.of_mem (hfound value rfl)

theorem tells_builtin {args : List Value} (function : Builtin)
    (h : ∀ arg ∈ args, history.Known arg) :
    Tells history History.Known (builtin function args) (function.apply args) := by
  unfold builtin
  split
  · next id first others =>
    have harray := h _ (List.mem_cons_self ..)
    exact tells_create (fun _ ↦ rfl) fun _ inner hm ↦ harray.of_mem (List.mem_cons_of_mem _ hm)
  · next id elements value =>
    obtain ⟨harray, hvalue⟩ := List.forall_mem_cons.mp h
    refine tells_create (fun _ ↦ rfl) fun _ inner hm ↦ ?_
    rcases List.mem_append.mp hm with hm | hm
    · exact harray.of_mem hm
    · exact hvalue inner hm
  · next hrest hpush =>
    unfold Builtin.apply
    split
    case h_1 value =>
      refine tells_lift_pure ?_
      unfold Builtin.length
      split <;> exact .plain rfl rfl
    case h_2 =>
      exact tells_lift_pure (known_getD (h _ (List.mem_cons_self ..)) fun _ ↦ List.mem_of_mem_head?)
    case h_3 =>
      exact tells_lift_pure (known_getD (h _ (List.mem_cons_self ..)) fun _ ↦ List.mem_of_getLast?)
    case h_4 id elements =>
      cases elements with
      | nil => exact tells_lift_pure (.plain rfl rfl)
      | cons first others => exact absurd rfl (hrest id first others rfl)
    case h_5 id elements value => exact absurd rfl (hpush id elements value rfl)
    case h_6 =>
      exact tells_lift_bind (tells_writeLines args) fun _ _ _ _ ↦ tells_lift_pure (.plain rfl rfl)
    all_goals exact tells_lift_pure (.plain rfl rfl)

end Chronicled

/-- Evaluation goes the same way when its chronicle is kept, and all values that come up are
known. -/
def Effects.chronicledCorrespondence (registry : Registry) :
    Correspondence (chronicled registry) registry History where
  holds := Chronicled.Tells
  value := History.Known
  value_mono hle h := h.mono hle
  plain := .plain
  part h hm := h.of_mem hm
  pure := Chronicled.tells_pure
  bind := Chronicled.tells_bind
  lookup := Chronicled.tells_lookup registry
  bindTo env target h := Chronicled.tells_bindTo h env target
  create := Chronicled.tells_create
  builtin := Chronicled.tells_builtin
  enclose scope := Chronicled.tells_addFrame fun store ↦ store.chain scope
  record := Chronicled.tells_record
  abort _ := Chronicled.tells_throw _
  inside h := h
  note := Chronicled.tells_note

namespace Chronicled

variable {history : History}

/-- Every value of an outcome is known. -/
def knows (history : History) (outcome : Outcome) : Prop :=
  ∀ found, outcome = .ok found → ∀ value ∈ found, history.Known value

theorem tells_outcome {x : Chronicled (Option Value)} {run : Run (Option Value)}
    (h : Tells history (fun history found ↦ ∀ value ∈ found, history.Known value) x run) :
    Tells history knows x.outcome run.outcome := by
  intro machine hfits
  obtain ⟨history', hle, hfits', hx⟩ := h machine hfits
  rw [Run.behind] at hfits' ⊢
  rw [Run.outcome, outcome]
  rcases hr : run machine with ⟨found, after⟩ | ⟨cause, after⟩ <;> rw [hr] at hx hfits'
  · rw [hx.1]
    exact ⟨history', hle, hfits', rfl, fun _ hfound ↦ Except.ok.inj hfound ▸ hx.2⟩
  · rw [hx]
    refine ⟨history', hle, hfits', rfl, fun _ hfound ↦ ?_⟩
    cases hfound

theorem tells_recordErrors (parsed : Parsed) :
    Tells history (fun _ _ ↦ True) (liftM (Run.recordErrors parsed)) (Run.recordErrors parsed) := by
  rw [Run.recordErrors]
  generalize parsed.errors = errors
  induction errors generalizing history with
  | nil => exact tells_lift_pure trivial
  | cons cause others ih => exact tells_lift_bind (tells_record _) fun _ _ _ _ ↦ ih

theorem tells_evaluateText (registry : Registry) (env : Address) (text : String) :
    Tells history (fun history found ↦ ∀ value ∈ found, history.Known value)
      (evaluateText registry env text) (MonkeyLang.evaluateText registry env text) := by
  refine tells_bind (tells_recordErrors _) fun _ _ _ _ ↦ ?_
  rw [Parsed.toExcept]
  by_cases hempty : (parse text).errors.isEmpty = true
  · rw [if_pos hempty]
    let C := Effects.chronicledCorrespondence registry
    exact C.holds_root (fun _ hargs ↦ C.holds_apply maxDepth _ hargs) _
  · rw [if_neg hempty]
    exact tells_throw _

/-- By induction on the steps. Each of them begins where the chronicle of those before it ends. -/
theorem tells_take (envs : List Address) (steps : List SessionStep) :
    Tells history (fun history outcomes ↦ ∀ outcome ∈ outcomes, knows history outcome)
      (Session.take (fun registry env source ↦ (evaluateText registry env source).outcome)
        envs steps)
      (Session.take
        (fun registry env source ↦ (MonkeyLang.evaluateText registry env source).outcome)
        envs steps) := by
  induction steps generalizing history envs with
  | nil => exact tells_pure (List.forall_mem_nil _)
  | cons step steps ih =>
    cases step with
    | fresh => exact tells_bind (tells_addFrame fun _ ↦ []) fun _ _ _ _ ↦ ih _
    | enclosed outer =>
      rw [Session.take, Session.take]
      cases envs[outer]? with
      | none => exact ih envs
      | some outer => exact tells_bind (tells_addFrame (·.chain outer)) fun _ _ _ _ ↦ ih _
    | text registry env source =>
      rw [Session.take, Session.take]
      cases envs[env]? with
      | none => exact ih envs
      | some env =>
        refine tells_bind (tells_outcome (tells_evaluateText registry env source))
          fun _ outcome _ houtcome ↦ tells_bind (ih envs) fun _ outcomes hle houtcomes ↦ ?_
        refine tells_pure (List.forall_mem_cons.mpr ⟨fun found hfound value hm ↦ ?_, houtcomes⟩)
        exact (houtcome found hfound value hm).mono hle

end Chronicled

/-- A session can be chronicled from beginning to end, and what it leaves behind is known. -/
theorem Session.chronicled_ends (steps : List SessionStep) :
    ∃ outcomes after history, run steps .initial = .ok outcomes after ∧
      chronicled steps (.initial, .empty) = .ok outcomes (after, history) ∧
      history.Fits after ∧ ∀ outcome ∈ outcomes, Chronicled.knows history outcome := by
  obtain ⟨outcomes, after, hrun⟩ := run_ends steps .initial
  have htells : Chronicled.Tells .empty
      (fun history outcomes ↦ ∀ outcome ∈ outcomes, Chronicled.knows history outcome)
      (chronicled steps) (run steps) := Chronicled.tells_take [] steps
  obtain ⟨history, _, hfits, hend⟩ := htells .initial .initial
  rw [Run.behind_ok hrun] at hfits
  rw [hrun] at hend
  exact ⟨outcomes, after, history, hrun, hend.1, hfits, hend.2⟩

end MonkeyLang
