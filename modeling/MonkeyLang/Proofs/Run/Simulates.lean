import MonkeyLang.Proofs.Run
import MonkeyLang.Proofs.Store.Like

/-!
Runs that go the same way from machines that are alike.
-/

namespace MonkeyLang

variable {α β : Type}

namespace Builtin

/-- How many arguments a function takes, if not any number of them. -/
def arity? : Builtin → Option Nat
  | puts => none
  | push => some 2
  | _ => some 1

theorem apply_of_length_ne {function : Builtin} {args : List Value} {want : Nat}
    (harity : function.arity? = some want) (h : args.length ≠ want) :
    function.apply args = pure (.error (.wrongArgumentCount args.length want)) := by
  unfold Builtin.apply
  split <;> simp_all [arity?]

end Builtin

/-- The runs have ended in the same way, with results as `r` says and machines that are alike. -/
def Likeness.SameEnd (L : Likeness) (r : α → α → Prop) :
    EStateM.Result Abort Machine α → EStateM.Result Abort Machine α → Prop
  | .ok a after, .ok a' after' => r a a' ∧ after.Like L after'
  | .error cause after, .error cause' after' => cause = cause' ∧ after.Like L after'
  | _, _ => False

theorem Likeness.SameEnd.cases {L : Likeness} {r : α → α → Prop}
    {result result' : EStateM.Result Abort Machine α} (h : L.SameEnd r result result') :
    (∃ a after a' after', result = .ok a after ∧ result' = .ok a' after' ∧ r a a' ∧
      after.Like L after') ∨
    ∃ cause after after', result = .error cause after ∧ result' = .error cause after' ∧
      after.Like L after' := by
  rcases result with ⟨a, after⟩ | ⟨cause, after⟩ <;>
    rcases result' with ⟨a', after'⟩ | ⟨cause', after'⟩
  · exact .inl ⟨a, after, a', after', rfl, rfl, h⟩
  · exact h.elim
  · exact h.elim
  · obtain ⟨rfl, hlike⟩ := h
    exact .inr ⟨cause, after, after', rfl, rfl, hlike⟩

/-- From machines that are alike the runs end in the same way. -/
def Run.Simulates (L : Likeness) (r : α → α → Prop) (run run' : Run α) : Prop :=
  ∀ machine machine', machine.Like L machine' → L.SameEnd r (run machine) (run' machine')

namespace Run

variable {L : Likeness} {r : α → α → Prop} {s : β → β → Prop} {run run' : Run α}
  {k k' : α → Run β} {env env' : Address} {name : String} {value value' : Value}
  {args args' : List Value}

theorem simulates_pure {a a' : α} (h : r a a') : Simulates L r (pure a) (pure a') :=
  fun _ _ hm ↦ ⟨h, hm⟩

theorem simulates_throw (cause : Abort) : Simulates L r (throw cause) (throw cause) :=
  fun _ _ hm ↦ ⟨rfl, hm⟩

theorem simulates_bind (h : Simulates L r run run')
    (hk : ∀ a a', r a a' → Simulates L s (k a) (k' a')) :
    Simulates L s (run >>= k) (run' >>= k') := by
  intro machine machine' hm
  rw [run_bind, run_bind]
  rcases (h machine machine' hm).cases with ⟨a, after, a', after', hr, hr', ha, hlike⟩ |
    ⟨cause, after, after', hr, hr', hlike⟩ <;> rw [hr, hr']
  · exact hk a a' ha after after' hlike
  · exact ⟨rfl, hlike⟩

theorem Simulates.mono {r' : α → α → Prop} (h : Simulates L r run run')
    (hr : ∀ a a', r a a' → r' a a') : Simulates L r' run run' := by
  rw [← bind_pure run, ← bind_pure run']
  exact simulates_bind h fun a a' ha ↦ simulates_pure (hr a a' ha)

theorem simulates_record (entry entry' : LogRecord) :
    Simulates L (fun _ _ ↦ True) (record entry) (record entry') :=
  fun _ _ hm ↦ ⟨trivial, hm.store, hm.created, hm.output⟩

theorem simulates_write (text : String) :
    Simulates L (fun _ _ ↦ True) (write text) (write text) :=
  fun _ _ hm ↦ ⟨trivial, hm.store, hm.created, L.texts_append text hm.output⟩

theorem simulates_create {make make' : Nat → α}
    (h : ∀ id id', L.ids id id' → r (make id) (make' id')) :
    Simulates L r (do return make (← freshId)) (do return make' (← freshId)) := by
  intro machine machine' hm
  refine ⟨h _ _ (hm.created 0), hm.store, fun k ↦ ?_, hm.output⟩
  have hcreated := hm.created (k + 1)
  rwa [Nat.add_comm k, ← Nat.add_assoc, ← Nat.add_assoc] at hcreated

theorem simulates_lookup? (hname : L.visible name = true) (henv : L.addresses env env') :
    Simulates L (Option.Rel (Value.Like L)) (lookup? env name) (lookup? env' name) :=
  fun _ _ hm ↦ ⟨hm.store.get? hname henv, hm⟩

theorem simulates_bindName (hname : L.visible name = true) (henv : L.addresses env env')
    (hvalue : value.Like L value') :
    Simulates L (fun _ _ ↦ True) (bindName env name value) (bindName env' name value') :=
  fun _ _ hm ↦ ⟨trivial, hm.store.bind hname henv hvalue, hm.created, hm.output⟩

theorem simulates_enclose (henv : L.addresses env env') :
    Simulates L L.addresses (enclose env) (enclose env') :=
  fun _ _ hm ↦
    ⟨hm.store.next 0, hm.store.addFrame (hm.store.chain henv), hm.created, hm.output⟩

theorem simulates_writeLines (h : List.Forall₂ (Value.Like L) args args') :
    Simulates L (fun _ _ ↦ True) (Builtin.writeLines args) (Builtin.writeLines args') := by
  induction h with
  | nil => exact simulates_pure trivial
  | cons hvalue _ ih =>
    rw [Builtin.writeLines, Builtin.writeLines, hvalue.inspect_eq]
    exact simulates_bind (simulates_write _) fun _ _ _ ↦ ih

theorem simulates_newArray {elements elements' : List Value}
    (h : List.Forall₂ (Value.Like L) elements elements') :
    Simulates L (Value.Like L) (newArray elements) (newArray elements') :=
  simulates_create fun _ _ hid ↦ .array hid h

theorem like_length (h : value.Like L value') :
    (Builtin.length value).Like L (Builtin.length value') := by
  cases h with
  | array _ h =>
    rw [Builtin.length, Builtin.length, h.length_eq]
    exact .integer
  | string => exact .integer
  | _ => exact .error

theorem simulates_tail {elements elements' : List Value}
    (h : List.Forall₂ (Value.Like L) elements elements') :
    Simulates L (Value.Like L) (Builtin.tail elements) (Builtin.tail elements') := by
  cases h with
  | nil => exact simulates_pure .null
  | cons _ hs => exact simulates_newArray hs

theorem like_head? {elements elements' : List Value}
    (h : List.Forall₂ (Value.Like L) elements elements') :
    Option.Rel (Value.Like L) elements.head? elements'.head? := by
  cases h with
  | nil => exact .none
  | cons h _ => exact .some h

theorem simulates_builtin (function : Builtin) (h : List.Forall₂ (Value.Like L) args args') :
    Simulates L (Value.Like L) (function.apply args) (function.apply args') := by
  by_cases hcount : ∃ want, function.arity? = some want ∧ args.length ≠ want
  · obtain ⟨want, harity, hne⟩ := hcount
    rw [Builtin.apply_of_length_ne harity hne,
      Builtin.apply_of_length_ne harity (h.length_eq ▸ hne), h.length_eq]
    exact simulates_pure .error
  have hone : function.arity? = some 1 → ∃ value value', args = [value] ∧ args' = [value'] ∧
      value.Like L value' := by
    intro harity
    have hlength : args.length = 1 := by_contra fun hne ↦ hcount ⟨1, harity, hne⟩
    match h with
    | .cons hvalue .nil => exact ⟨_, _, rfl, rfl, hvalue⟩
    | .nil | .cons _ (.cons _ _) => simp at hlength
  cases function with
  | puts => exact simulates_bind (simulates_writeLines h) fun _ _ _ ↦ simulates_pure .null
  | push =>
    match h with
    | .cons hfirst (.cons hsecond .nil) =>
      cases hfirst with
      | array _ h => exact simulates_newArray (List.rel_append h (.cons hsecond .nil))
      | _ => exact simulates_pure .error
    | .nil | .cons _ .nil | .cons _ (.cons _ (.cons _ _)) => simp [Builtin.arity?] at hcount
  | len =>
    obtain ⟨value, value', rfl, rfl, hvalue⟩ := hone rfl
    exact simulates_pure (like_length hvalue)
  | first =>
    obtain ⟨value, value', rfl, rfl, hvalue⟩ := hone rfl
    cases hvalue with
    | array _ hs => exact simulates_pure (.getD (like_head? hs))
    | _ => exact simulates_pure .error
  | last =>
    obtain ⟨value, value', rfl, rfl, hvalue⟩ := hone rfl
    cases hvalue with
    | array _ hs =>
      refine simulates_pure (.getD ?_)
      rw [List.getLast?_eq_head?_reverse, List.getLast?_eq_head?_reverse]
      exact like_head? (List.rel_reverse hs)
    | _ => exact simulates_pure .error
  | rest =>
    obtain ⟨value, value', rfl, rfl, hvalue⟩ := hone rfl
    cases hvalue with
    | array _ hs => exact simulates_tail hs
    | _ => exact simulates_pure .error

end Run

end MonkeyLang
