import MonkeyLang.Proofs.Reading.Recording
import Mathlib.Data.List.Perm.Subperm

/-!
One error for each statement that is dropped: the errors of a text are those of the attempts to read
a statement that fail, in the order in which these end.
-/

namespace MonkeyLang

/-- The errors come from the attempts among the calls, one from each that fails and none from the
others. The attempts start at different tokens, none of which is the end. -/
structure OneErrorEach (tokens : List Token) (errors : List ParseError) (calls : List Call) :
    Prop where
  accounts : ∀ call ∈ attempts calls, call.Accounts
  owned : errors = (attempts calls).flatMap Call.own
  count : errors.length = (attempts calls).countP (!·.succeeded)
  none : errors = [] ↔ ∀ call ∈ attempts calls, call.succeeded = true
  apart : ((attempts calls).map (·.start.length)).Nodup
  starts : ∀ call ∈ attempts calls, call.start <:+ tokens ∧ front call.start ≠ .eof
  bounded : errors.length ≤ tokens.length

theorem length_flatMap_own {calls : List Call} (h : ∀ call ∈ calls, call.Accounts) :
    (calls.flatMap Call.own).length = calls.countP (!·.succeeded) := by
  induction calls with
  | nil => rfl
  | cons call others ih =>
    obtain ⟨hcall, hothers⟩ := List.forall_mem_cons.mp h
    rw [List.flatMap_cons, List.length_append, hcall.own, ih hothers, List.countP_cons]
    cases call.succeeded <;> simp [Nat.add_comm]

theorem length_le_of_nodup {numbers : List Nat} {n : Nat} (h : numbers.Nodup)
    (hm : ∀ m ∈ numbers, 0 < m ∧ m ≤ n) : numbers.length ≤ n := by
  have hsub : numbers ⊆ List.range' 1 n := fun m h ↦
    List.mem_range'_1.mpr ⟨(hm m h).1, by have := (hm m h).2; omega⟩
  have hle := (List.subperm_of_subset h hsub).length_le
  rwa [List.length_range'] at hle

/-- Every attempt starts at a token of its own, so that there are no more errors than tokens. -/
theorem Logged.oneErrorEach {least lag : Nat} {tokens rest : List Token}
    {errors : List ParseError} {calls : List Call}
    (h : Logged least lag tokens rest errors calls) : OneErrorEach tokens errors calls := by
  have hactivity : ∀ call ∈ attempts calls, call ∈ calls ∧ call.activity = .statement :=
    fun call hm ↦ by simpa [attempts] using hm
  have haccounts : ∀ call ∈ attempts calls, call.Accounts :=
    fun call hm ↦ (h.sound call (hactivity call hm).1).accounts (hactivity call hm).2
  have hcount : errors.length = (attempts calls).countP (!·.succeeded) := by
    rw [h.owned, length_flatMap_own haccounts]
  have hstarts : ∀ call ∈ attempts calls, call.start <:+ tokens ∧ front call.start ≠ .eof :=
    fun call hm ↦ ⟨(h.attempted call hm).1.trans (List.drop_suffix _ _),
      (h.sound call (hactivity call hm).1).progresses.statement (hactivity call hm).2⟩
  have hattempts : (attempts calls).length ≤ tokens.length := by
    have hle := length_le_of_nodup h.once (n := tokens.length) fun m hm ↦ by
      obtain ⟨call, hcall, rfl⟩ := List.mem_map.mp hm
      exact ⟨Nat.zero_lt_of_lt (h.attempted call hcall).2, (hstarts call hcall).1.length_le⟩
    rwa [List.length_map] at hle
  refine ⟨haccounts, h.owned, hcount, ?_, h.once, hstarts, ?_⟩
  · rw [← List.length_eq_zero_iff, hcount, List.countP_eq_zero]
    simp
  · rw [hcount]
    exact List.countP_le_length.trans hattempts

/-- A function whose block drops a statement is itself kept: of three attempts, which start where 3, 7
and 1 tokens lie ahead, the two that fail have an error each. -/
example :
    let tokens : List Token := [⟨.kwFn, "fn"⟩, ⟨.lparen, "("⟩, ⟨.rparen, ")"⟩,
      ⟨.lbrace, "\x7b"⟩, ⟨.kwLet, "let"⟩, ⟨.rbrace, "\x7d"⟩, ⟨.kwReturn, "return"⟩]
    (match (Recorder.program 8).run ⟨tokens, [], []⟩ with
      | .ok _ after => (attempts after.calls).map fun call ↦ (call.start.length, call.own.length)
      | .error _ _ => []) = [(3, 1), (7, 0), (1, 1)] := by decide

end MonkeyLang
