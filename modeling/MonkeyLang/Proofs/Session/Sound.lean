import MonkeyLang.Proofs.Evaluation.Guarding
import MonkeyLang.Proofs.Store.Standing

/-!
No text can bring about an internal fault: sessions under guard go as they do without, and all
functions that they keep are made of trees that can be read.
-/

namespace MonkeyLang

/-- Everything may be done but what has no result. -/
def Guard.lenient : Guard := ⟨fun _ ↦ true, fun _ _ ↦ true⟩

/-- Every function that stands in the value is made of trees that can be read. -/
def Value.KeepsReadable (value : Value) : Prop :=
  ∀ id params body env, .function id params body env ∈ value.nested →
    (∀ param ∈ params, param.Readable .name) ∧ body.Readable .block

theorem Value.Stands.keepsReadable {range : Int → Prop} {extent : Extent} {value : Value}
    (h : value.Stands range extent) : value.KeepsReadable :=
  fun _ _ _ _ hm ↦ (h.of_nested hm).self.2

namespace Invariant

variable {W : Type} [Preorder W] {guard : Guard}

/-- While an invariant holds, a session goes as it does under guard, unless it takes the length of
something that is too long. -/
theorem session_cases (I : Invariant W guard) {w : W} (hinitial : I.state w .empty 0)
    (steps : List SessionStep) :
    (∃ outcomes after w', Session.run steps .initial = .ok outcomes after ∧
      (Session.guarded guard steps).run .initial = .ok (.ok outcomes) after ∧
      I.state w' after.store after.created ∧ ∀ outcome ∈ outcomes, I.sound w' outcome) ∨
    ∃ after, (Session.guarded guard steps).run .initial = .ok (.error .overlong) after ∧
      ∃ n, guard.measures n = false := by
  have hfollows : I.Follows id (fun w outcomes ↦ ∀ outcome ∈ outcomes, I.sound w outcome) w
      (Session.run steps .initial) ((Session.guarded guard steps).run .initial) :=
    guards_take (List.forall_mem_nil _) steps .initial hinitial
  obtain ⟨outcomes, after, hrun⟩ := Session.run_ends steps .initial
  rcases hguarded : (Session.guarded guard steps).run .initial with
    ⟨misstep | outcomes', after'⟩ | ⟨cause, after'⟩ <;> rw [hguarded, hrun] at hfollows
  · obtain ⟨rfl, hlong⟩ := hfollows
    exact .inr ⟨after', rfl, hlong⟩
  · obtain ⟨_, rfl, hend, w', _, hstate, hsound⟩ := hfollows
    cases hend
    exact .inl ⟨outcomes, after, w', hrun, rfl, hstate, hsound⟩
  · cases hfollows.1

theorem session_ends (I : Invariant W guard) (hmeasures : ∀ n, guard.measures n = true) {w : W}
    (hinitial : I.state w .empty 0) (steps : List SessionStep) :
    ∃ outcomes after w', Session.run steps .initial = .ok outcomes after ∧
      (Session.guarded guard steps).run .initial = .ok (.ok outcomes) after ∧
      I.state w' after.store after.created ∧ ∀ outcome ∈ outcomes, I.sound w' outcome := by
  refine (I.session_cases hinitial steps).resolve_right ?_
  rintro ⟨_, _, n, hn⟩
  rw [hmeasures n] at hn
  cases hn

end Invariant

namespace Session

end Session

end MonkeyLang
