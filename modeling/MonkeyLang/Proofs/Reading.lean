import MonkeyLang.Reader.Expression

/-!
Reading without loss: a reader succeeds and no statement inside what it reads is dropped.
-/

namespace MonkeyLang

/-- The kind of the token in front, and behind the last token that of the end. -/
def front (tokens : List Token) : Kind := (tokens.head?.getD .eof).kind

@[simp] theorem front_nil : front [] = .eof := rfl

@[simp] theorem front_cons (token : Token) (tokens : List Token) :
    front (token :: tokens) = token.kind := rfl

namespace Reader

variable {α β : Type} {p : Reader α} {f : α → Reader β} {tokens rest : List Token}

/-- The reader takes `a` from the front of the tokens, drops nothing and leaves `rest`. -/
def Reads (p : Reader α) (tokens : List Token) (a : α) (rest : List Token) : Prop :=
  p tokens = ⟨.ok a, [], rest⟩

theorem Reads.unique {a b : α} {rest' : List Token} (h : p.Reads tokens a rest)
    (h' : p.Reads tokens b rest') : a = b ∧ rest = rest' := by
  have he := h.symm.trans h'
  simp only [Reading.mk.injEq, Except.ok.injEq] at he
  exact ⟨he.1, he.2.2⟩

theorem reads_pure {a b : α} : (pure b : Reader α).Reads tokens a rest ↔ b = a ∧ tokens = rest := by
  simp [Reads, pure, done]

theorem reads_fail {a : α} {cause : ParseError} :
    ¬ (fail cause : Reader α).Reads tokens a rest := by
  simp [Reads, fail]

theorem reads_bind {b : β} :
    (p >>= f).Reads tokens b rest ↔ ∃ a mid, p.Reads tokens a mid ∧ (f a).Reads mid b rest := by
  simp only [Reads, bind, andThen]
  constructor
  · intro h
    split at h
    · next a dropped mid hp =>
      have hd : dropped = [] ∧ (f a mid).dropped = [] := by
        simpa using congrArg Reading.dropped h
      refine ⟨a, mid, by rw [hp, hd.1], ?_⟩
      rw [← h, hd.1, List.nil_append]
    · simp at h
  · intro h
    obtain ⟨a, mid, hp, hf⟩ := h
    rw [hp]
    simp only [hf, List.nil_append]

/-- What is read without loss leaves no trace in what is read behind it. -/
theorem Reads.bind_eq {a : α} {mid : List Token} (h : p.Reads tokens a mid) :
    (p >>= f) tokens = f a mid := by
  simp only [bind, andThen, show p tokens = _ from h, List.nil_append]

theorem outcome_bind {a : α} (h : (p tokens).outcome = .ok a) :
    ((p >>= f) tokens).outcome = (f a (p tokens).rest).outcome := by
  simp only [bind, andThen]
  split
  · next b dropped mid hp =>
    rw [hp] at h ⊢
    obtain rfl := Except.ok.inj h
    rfl
  · next cause dropped mid hp =>
    rw [hp] at h
    cases h

theorem rest_bind {a : α} (h : (p tokens).outcome = .ok a) :
    ((p >>= f) tokens).rest = (f a (p tokens).rest).rest := by
  simp only [bind, andThen]
  split
  · next b dropped mid hp =>
    rw [hp] at h ⊢
    obtain rfl := Except.ok.inj h
    rfl
  · next cause dropped mid hp =>
    rw [hp] at h
    cases h

theorem attempt_isOk (p : Reader α) (tokens : List Token) :
    ∃ a, (attempt p tokens).outcome = .ok a := by
  unfold attempt
  split
  · exact ⟨some _, rfl⟩
  · exact ⟨none, rfl⟩

/-- Reading statements always gives some statements. -/
theorem statementsUntil_isOk (close : Kind) (statement : Reader Node) (bound : Nat)
    (tokens : List Token) :
    ∃ nodes, (statementsUntil close statement bound tokens).outcome = .ok nodes := by
  induction bound generalizing tokens with
  | zero => exact ⟨[], rfl⟩
  | succ bound ih =>
    rw [statementsUntil, outcome_bind (show (peek tokens).outcome = .ok _ from rfl)]
    split
    · exact ⟨[], rfl⟩
    · obtain ⟨first, hfirst⟩ := attempt_isOk statement tokens
      obtain ⟨others, hothers⟩ := ih (attempt statement tokens).rest
      refine ⟨first.toList ++ others, ?_⟩
      exact (outcome_bind hfirst).trans (outcome_bind hothers)

theorem reads_map {g : α → β} {b : β} :
    (g <$> p).Reads tokens b rest ↔ ∃ a, p.Reads tokens a rest ∧ g a = b := by
  change (p >>= fun a ↦ pure (g a)).Reads tokens b rest ↔ _
  simp only [reads_bind, reads_pure]
  constructor
  · intro h
    obtain ⟨a, mid, hp, hb, rfl⟩ := h
    exact ⟨a, hp, hb⟩
  · intro h
    obtain ⟨a, hp, hb⟩ := h
    exact ⟨a, rest, hp, hb, rfl⟩

theorem peek_bind {g : Token → Reader β} :
    (peek >>= g) tokens = g (tokens.head?.getD .eof) tokens := rfl

theorem next_bind {g : Token → Reader β} :
    (next >>= g) tokens = g (tokens.head?.getD .eof) tokens.tail := rfl

theorem accept_bind {kind : Kind} {g : Bool → Reader β} :
    (accept kind >>= g) tokens =
      if front tokens = kind then g true tokens.tail else g false tokens := by
  by_cases h : front tokens = kind
  · have haccept : (accept kind).Reads tokens true tokens.tail := by
      rw [Reads, accept, peek_bind, if_pos (by exact h)]
      rfl
    rw [haccept.bind_eq, if_pos h]
  · have haccept : (accept kind).Reads tokens false tokens := by
      rw [Reads, accept, peek_bind, if_neg (by exact h)]
      rfl
    rw [haccept.bind_eq, if_neg h]

theorem reads_peek {token : Token} :
    peek.Reads tokens token rest ↔ tokens.head?.getD .eof = token ∧ tokens = rest := by
  simp [Reads, peek]

theorem reads_next {token : Token} :
    next.Reads tokens token rest ↔ tokens.head?.getD .eof = token ∧ tokens.tail = rest := by
  simp [Reads, next]

theorem cons_of_front {kind : Kind} (hk : kind ≠ .eof) (h : front tokens = kind) :
    tokens = tokens.head?.getD .eof :: tokens.tail := by
  cases tokens with
  | nil => exact absurd h.symm hk
  | cons token others => rfl

theorem reads_expect {kind : Kind} (hk : kind ≠ .eof) {token : Token} :
    (expect kind).Reads tokens token rest ↔ tokens = token :: rest ∧ token.kind = kind := by
  simp only [expect, reads_bind, reads_peek]
  constructor
  · intro h
    obtain ⟨_, _, ⟨rfl, rfl⟩, h⟩ := h
    split at h
    · next hkind =>
      obtain ⟨rfl, rfl⟩ := reads_next.mp h
      exact ⟨cons_of_front hk hkind, hkind⟩
    · exact absurd h reads_fail
  · intro h
    obtain ⟨rfl, hkind⟩ := h
    refine ⟨token, token :: rest, ⟨rfl, rfl⟩, ?_⟩
    rw [if_pos hkind]
    exact reads_next.mpr ⟨rfl, rfl⟩

theorem reads_accept {kind : Kind} (hk : kind ≠ .eof) {taken : Bool} :
    (accept kind).Reads tokens taken rest ↔
      taken = true ∧ (∃ token, tokens = token :: rest ∧ token.kind = kind) ∨
      taken = false ∧ front tokens ≠ kind ∧ tokens = rest := by
  simp only [accept, reads_bind, reads_peek]
  constructor
  · intro h
    obtain ⟨_, _, ⟨rfl, rfl⟩, h⟩ := h
    split at h
    · next hkind =>
      obtain ⟨_, _, hn, ht⟩ := reads_bind.mp h
      obtain ⟨rfl, rfl⟩ := reads_next.mp hn
      obtain ⟨rfl, rfl⟩ := reads_pure.mp ht
      exact .inl ⟨rfl, _, cons_of_front hk hkind, hkind⟩
    · next hkind =>
      obtain ⟨rfl, rfl⟩ := reads_pure.mp h
      exact .inr ⟨rfl, hkind, rfl⟩
  · intro h
    rcases h with ⟨rfl, token, rfl, hkind⟩ | ⟨rfl, hkind, rfl⟩
    · refine ⟨token, token :: rest, ⟨rfl, rfl⟩, ?_⟩
      rw [if_pos hkind]
      exact reads_bind.mpr ⟨token, rest, reads_next.mpr ⟨rfl, rfl⟩, reads_pure.mpr ⟨rfl, rfl⟩⟩
    · refine ⟨_, tokens, ⟨rfl, rfl⟩, ?_⟩
      rw [if_neg (by exact hkind)]
      exact reads_pure.mpr ⟨rfl, rfl⟩

theorem reads_attempt {a : Option α} :
    (attempt p).Reads tokens a rest ↔ ∃ b, p.Reads tokens b rest ∧ a = some b := by
  simp only [Reads, attempt]
  constructor
  · intro h
    split at h
    · next b dropped mid hp =>
      simp only [Reading.mk.injEq, Except.ok.injEq] at h
      obtain ⟨rfl, rfl, rfl⟩ := h
      exact ⟨b, hp, rfl⟩
    · simp at h
  · intro h
    obtain ⟨b, hp, rfl⟩ := h
    rw [hp]

end Reader

end MonkeyLang
