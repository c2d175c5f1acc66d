import MonkeyLang.Proofs.Run
import MonkeyLang.Proofs.Value.Parts

/-!
What runs give, as long as the store satisfies an invariant.
-/

namespace MonkeyLang

/-- From every machine whose store satisfies `I` the run leads to one whose store does, and what it
gives, if anything, satisfies `P`. -/
def Run.Gives {α : Type} (I : Store → Prop) (P : α → Prop) (run : Run α) : Prop :=
  ∀ machine, I machine.store → match run machine with
    | .ok a after => P a ∧ I after.store
    | .error _ after => I after.store

/-- Where the values come from that builtin functions give. -/
inductive Builtin.Answers (args : List Value) : Value → Prop
  | error {fault : Fault} : Answers args (.error fault)
  | null : Answers args .null
  | length {n : Nat} : Answers args (.integer n)
  | part {arg value : Value} : arg ∈ args → value ∈ arg.parts → Answers args value
  | array {id : Nat} {elements : List Value} :
      (∀ element ∈ elements, element ∈ args ∨ ∃ arg ∈ args, element ∈ arg.parts) →
      Answers args (.array id elements)

theorem Builtin.Answers.within {E : Address → Prop} {q : Value → Prop} {args : List Value}
    {value : Value} (hplain : ∀ value : Value, value.isPlain = true → q value)
    (h : Answers args value)
    (hargs : ∀ arg ∈ args, arg.Within E q) :
    (∃ fault, value = .error fault) ∨ value.Within E q := by
  cases h with
  | error => exact .inl ⟨_, rfl⟩
  | null | length => exact .inr (.plain hplain rfl (by simp [Value.parts]))
  | part harg hm => exact .inr ((hargs _ harg).of_mem hm)
  | array helements =>
    refine .inr (.plain hplain rfl fun element hm ↦ ?_)
    rcases helements element hm with harg | ⟨arg, harg, hpart⟩
    · exact hargs element harg
    · exact (hargs arg harg).of_mem hpart

namespace Run

variable {α β : Type} {I : Store → Prop} {P : α → Prop} {Q : β → Prop} {run : Run α}
  {f : α → Run β}

theorem Gives.mono {P' : α → Prop} (h : Gives I P run) (hP : ∀ a, P a → P' a) :
    Gives I P' run := by
  intro machine hstore
  have hrun := h machine hstore
  cases hr : run machine with
  | ok a after =>
    rw [hr] at hrun
    exact ⟨hP a hrun.1, hrun.2⟩
  | error cause after =>
    rw [hr] at hrun
    exact hrun

theorem gives_pure {a : α} (h : P a) : Gives I P (pure a) := fun _ hstore ↦ ⟨h, hstore⟩

theorem gives_bind (h : Gives I P run) (hf : ∀ a, P a → Gives I Q (f a)) :
    Gives I Q (run >>= f) := by
  intro machine hstore
  have hrun := h machine hstore
  rw [run_bind]
  cases hr : run machine with
  | ok a after =>
    rw [hr] at hrun
    exact hf a hrun.1 after hrun.2
  | error cause after =>
    rw [hr] at hrun
    exact hrun

theorem gives_record (entry : LogRecord) : Gives I (fun _ ↦ True) (record entry) :=
  fun _ hstore ↦ ⟨trivial, hstore⟩

theorem gives_write (text : String) : Gives I (fun _ ↦ True) (write text) :=
  fun _ hstore ↦ ⟨trivial, hstore⟩

theorem gives_create {make : Nat → α} (h : ∀ id, P (make id)) :
    Gives I P (do return make (← freshId)) := fun _ hstore ↦ ⟨h _, hstore⟩

theorem gives_writeLines (values : List Value) :
    Gives I (fun _ ↦ True) (Builtin.writeLines values) := by
  induction values with
  | nil => exact gives_pure trivial
  | cons value others ih => exact gives_bind (gives_write _) fun _ _ ↦ ih

theorem gives_builtin (function : Builtin) (args : List Value) :
    Gives I (Builtin.Answers args) (function.apply args) := by
  have hpart : ∀ {id elements} {found : Option Value}, (∀ v ∈ found, v ∈ elements) →
      Value.array id elements ∈ args → Builtin.Answers args (found.getD .null) := by
    intro id elements found hfound hm
    cases found with
    | none => exact .null
    | some v => exact .part hm (hfound v rfl)
  unfold Builtin.apply
  split
  case h_1 value =>
    refine gives_pure ?_
    unfold Builtin.length
    split
    · exact .length
    · exact .length
    · exact .error
  case h_2 => exact gives_pure (hpart (fun _ ↦ List.mem_of_mem_head?) (List.mem_cons_self ..))
  case h_3 => exact gives_pure (hpart (fun _ ↦ List.mem_of_getLast?) (List.mem_cons_self ..))
  case h_4 id elements =>
    cases elements with
    | nil => exact gives_pure .null
    | cons first others =>
      refine gives_create fun _ ↦ .array fun v hv ↦ .inr ⟨_, List.mem_cons_self .., ?_⟩
      exact List.mem_cons_of_mem _ hv
  case h_5 id elements value =>
    refine gives_create fun _ ↦ .array fun v hv ↦ ?_
    rcases List.mem_append.mp hv with hv | hv
    · exact .inr ⟨_, List.mem_cons_self .., hv⟩
    · exact .inl (List.mem_cons_of_mem _ hv)
  case h_6 => exact gives_bind (gives_writeLines args) fun _ _ ↦ gives_pure .null
  all_goals exact gives_pure .error

end Run

end MonkeyLang
