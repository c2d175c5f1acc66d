import MonkeyLang.Proofs.Reading.Recording

/-!
The bounds of the readers do not matter, whether reading succeeds or fails, as long as they are at
least the number of tokens: the parser with a record, which knows no bound, does the same as all of
them.
-/

namespace MonkeyLang

/-- A reading can be told from what comes of it with a record. -/
theorem Reading.eq_of_recorded {α : Type} {reading reading' : Reading α} {cursor : Cursor}
    {calls calls' : List Call}
    (h : reading.recorded cursor calls = reading'.recorded cursor calls') :
    reading = reading' := by
  rcases reading with ⟨cause | a, dropped, rest⟩ <;>
    rcases reading' with ⟨cause' | a', dropped', rest'⟩ <;>
    simp only [recorded, errors, reduceCtorEq, EStateM.Result.ok.injEq, EStateM.Result.error.injEq,
      Cursor.mk.injEq, List.append_cancel_left_eq, true_and] at h
  · obtain ⟨rfl, herrors, -⟩ := h
    obtain ⟨rfl, hcause⟩ := List.append_inj' herrors rfl
    rw [List.singleton_inj.mp hcause]
  · obtain ⟨rfl, rfl, rfl, -⟩ := h
    rfl

namespace Reader

/-- On at most `most` tokens, both readers do the same, and they take at least `least` tokens if
there are that many. -/
def Alike {α : Type} (most least : Nat) (p q : Reader α) : Prop :=
  ∀ tokens, tokens.length ≤ most →
    p tokens = q tokens ∧ (p tokens).rest.length ≤ tokens.length - least

/-- Readers are alike if one parser with a record does what they do. -/
theorem Alike.of_records {α : Type} {most least lag : Nat} {p : Recorder α} {q q' : Reader α}
    (h : Recorder.Records most least lag p q) (h' : Recorder.Records most least lag p q') :
    Alike most least q q' := by
  intro tokens ht
  obtain ⟨calls, hp, hlog⟩ := h ⟨tokens, [], []⟩ ht
  obtain ⟨calls', hp', -⟩ := h' ⟨tokens, [], []⟩ ht
  refine ⟨Reading.eq_of_recorded (hp.symm.trans hp'), ?_⟩
  rw [← List.length_drop]
  exact hlog.taken.length_le

/-- Statements are read in the same way with all bounds that are at least the number of tokens. -/
theorem alike_statementsUntil {close : Kind} {most bound bound' count count' : Nat}
    (hbound : most ≤ bound) (hbound' : most ≤ bound') (hcount : most ≤ count)
    (hcount' : most ≤ count') :
    Alike most 0 (statementsUntil close (statement (expr bound)) count)
      (statementsUntil close (statement (expr bound')) count') := by
  have hrecords : ∀ {bound count}, most ≤ bound → most ≤ count →
      Recorder.Records most 0 0
        (Recorder.statementsUntil close (Recorder.statement (Recorder.expr (most + 1))) (most + 1))
        (statementsUntil close (statement (expr bound)) count) := by
    intro bound count hbound hcount
    refine Recorder.records_statementsUntil ?_ (Nat.lt_succ_self _) hcount
    exact Recorder.records_statement fun precedence ↦
      Recorder.records_expr (Nat.lt_succ_self _) hbound precedence
  exact .of_records (hrecords hbound hcount) (hrecords hbound' hcount')

end Reader

end MonkeyLang
