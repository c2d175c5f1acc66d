import MonkeyLang.Proofs.Session.Sound
import MonkeyLang.Proofs.Store.Closed

/-!
Calls can be repeated: a second call, right after a first one, does what the first one did. It makes
new things in place of those that the first one has made, in the same order.
-/

namespace MonkeyLang

/-- Values may be used that are known to a machine, which must be closed. -/
def Guard.closed : Guard where
  measures _ := true
  admits machine value := decide (machine.Closed ∧ value.Known machine.extent)

/-- The second value is the first one, with new things in place of those that are new in it: the
values that stand in it are the very same where they were known before. -/
structure Value.SameAgain (before after : Machine) (value value' : Value) : Prop where
  like : value.Like (.again before after) value'
  type : value.type = value'.type
  inspect : value.inspect = value'.inspect
  fault {fault : Fault} : value = .error fault ↔ value' = .error fault
  known : List.Forall₂ (fun inner inner' ↦ inner.Known before.extent → inner = inner')
    value.nested value'.nested

/-- The second run has written what the first one wrote, and has made frames like those that the
first one made. No frame has changed that was there before. -/
structure Machine.SameAgain (before after after' : Machine) : Prop where
  like : after.Like (.again before after) after'
  written : ∃ written, after.output = before.output ++ written ∧
    after'.output = after.output ++ written
  frames : before.store.Extends after.store ∧ after.store.Extends after'.store

/-- A second call right after the first one ends as that did, with what was known before in its
place. -/
def Evaluation.Repeats (registry : Registry) (depth : Nat) (callee : Value) (args : List Value)
    (machine : Machine) : Prop :=
  match apply registry depth callee args machine with
  | .ok value after => ∃ value' after', apply registry depth callee args after = .ok value' after' ∧
    value.SameAgain machine after value' ∧ machine.SameAgain after after'
  | .error cause after => ∃ after', apply registry depth callee args after = .error cause after' ∧
    machine.SameAgain after after'

/-- No number of creation is given out twice. -/
def Machine.Creates (before after : Machine) : Prop := before.created ≤ after.created

instance : IsPreorder Machine Machine.Creates where
  refl _ := Nat.le_refl _
  trans _ _ _ := Nat.le_trans

theorem Value.Like.sameAgain {before after : Machine} {value value' : Value}
    (h : value.Like (.again before after) value') : value.SameAgain before after value' where
  like := h
  type := h.type
  inspect := h.inspect_eq
  fault {fault} := by
    constructor
    · rintro rfl
      cases h
      rfl
    · rintro rfl
      cases h
      rfl
  known := h.nested.imp fun _ _ hlike hknown ↦ hknown.eq_of_like hlike

namespace Evaluation

open Run

variable {registry : Registry} {depth : Nat} {callee : Value} {args : List Value}
  {machine : Machine}

theorem apply_creates (registry : Registry) (depth : Nat) (callee : Value) (args : List Value) :
    Keeps Machine.Creates (apply registry depth callee args) :=
  keeps_apply (fun _ _ ↦ Nat.le_refl _) (fun _ _ ↦ Nat.le_refl _) (fun _ ↦ Nat.le_succ _)
    (fun _ _ ↦ Nat.le_refl _) (fun _ _ _ _ ↦ Nat.le_refl _) registry depth callee args

theorem apply_repeats (hmachine : machine.Closed) (hcallee : callee.Known machine.extent)
    (hargs : ∀ arg ∈ args, arg.Known machine.extent) :
    Repeats registry depth callee args machine := by
  have hframes := apply_extends registry depth callee args
  -- the machine behind the first call is like the one before it, so that the second call goes the
  -- same way
  have hlike := hmachine.like_again (hframes machine)
    (apply_creates registry depth callee args machine)
  have hsimulates : ∀ {after}, Simulates (.again machine after) (Value.Like (.again machine after))
      (apply registry depth callee args) (apply registry depth callee args) :=
    simulates_apply (fun _ _ ↦ rfl) depth hcallee.like_again
      (List.forall₂_same.mpr fun arg harg ↦ (hargs arg harg).like_again)
  rw [Repeats]
  rcases (hsimulates machine _ hlike).cases with ⟨value, after, value', after', hr, hr', hvalue, hafter⟩ |
    ⟨cause, after, after', hr, hr', hafter⟩
  · rw [hr]
    obtain rfl := behind_ok hr
    obtain rfl := behind_ok hr'
    exact ⟨value', _, hr', hvalue.sameAgain, hafter, hafter.output, hframes _, hframes _⟩
  · rw [hr]
    obtain rfl := behind_error hr
    obtain rfl := behind_error hr'
    exact ⟨_, hr', hafter, hafter.output, hframes _, hframes _⟩

end Evaluation

end MonkeyLang
