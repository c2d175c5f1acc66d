import MonkeyLang.Proofs.Reading
import Mathlib.Tactic.Common

/-!
What it takes for each form to be read without loss, in terms of what stands inside the form.
-/

namespace MonkeyLang.Reader

variable {α β : Type} {item : Reader α} {close : Kind} {tokens rest : List Token}

theorem reads_commaItems_zero {as : List α} :
    (commaItems item 0).Reads tokens as rest ↔ as = [] ∧ tokens = rest := by
  rw [commaItems, reads_pure]
  exact and_congr_left fun _ ↦ eq_comm

theorem reads_commaItems_succ {bound : Nat} {as : List α} :
    (commaItems item (bound + 1)).Reads tokens as rest ↔
      (as = [] ∧ front tokens ≠ .comma ∧ tokens = rest) ∨
      ∃ comma others a as' mid, tokens = comma :: others ∧ comma.kind = .comma ∧
        item.Reads others a mid ∧ (commaItems item bound).Reads mid as' rest ∧ as = a :: as' := by
  rw [commaItems, reads_bind]
  constructor
  · intro h
    obtain ⟨taken, mid, ha, h⟩ := h
    rcases (reads_accept (by decide)).mp ha with ⟨rfl, comma, rfl, hk⟩ | ⟨rfl, hk, rfl⟩
    · simp only [if_true, reads_bind, reads_pure] at h
      obtain ⟨a, mid', hi, as', _, hc, rfl, rfl⟩ := h
      exact .inr ⟨comma, mid, a, as', mid', rfl, hk, hi, hc, rfl⟩
    · simp only [Bool.false_eq_true, if_false, reads_pure] at h
      exact .inl ⟨h.1.symm, hk, h.2⟩
  · intro h
    rcases h with ⟨rfl, hk, rfl⟩ | ⟨comma, others, a, as', mid, rfl, hk, hi, hc, rfl⟩
    · refine ⟨false, tokens, (reads_accept (by decide)).mpr (.inr ⟨rfl, hk, rfl⟩), ?_⟩
      simp only [Bool.false_eq_true, if_false, reads_pure, and_self]
    · refine ⟨true, others, (reads_accept (by decide)).mpr (.inl ⟨rfl, comma, rfl, hk⟩), ?_⟩
      simp only [if_true, reads_bind, reads_pure]
      exact ⟨a, mid, hi, as', rest, hc, rfl, rfl⟩

theorem reads_listUntil (hclose : close ≠ .eof) {bound : Nat} {as : List α} :
    (listUntil close item bound).Reads tokens as rest ↔
      (as = [] ∧ ∃ token, tokens = token :: rest ∧ token.kind = close) ∨
      (front tokens ≠ close ∧ ∃ a as' mid token, item.Reads tokens a mid ∧
        (commaItems item bound).Reads mid as' (token :: rest) ∧ token.kind = close ∧
        as = a :: as') := by
  rw [listUntil, reads_bind]
  constructor
  · intro h
    obtain ⟨taken, mid, ha, h⟩ := h
    rcases (reads_accept hclose).mp ha with ⟨rfl, token, rfl, hk⟩ | ⟨rfl, hk, rfl⟩
    · simp only [if_true, reads_pure] at h
      obtain ⟨rfl, rfl⟩ := h
      exact .inl ⟨rfl, token, rfl, hk⟩
    · simp only [Bool.false_eq_true, if_false, reads_bind, reads_pure, reads_expect hclose] at h
      obtain ⟨a, mid, hi, as', _, hc, token, _, ⟨rfl, hk'⟩, rfl, rfl⟩ := h
      exact .inr ⟨hk, a, as', mid, token, hi, hc, hk', rfl⟩
  · intro h
    rcases h with ⟨rfl, token, rfl, hk⟩ | ⟨hk, a, as', mid, token, hi, hc, hk', rfl⟩
    · refine ⟨true, rest, (reads_accept hclose).mpr (.inl ⟨rfl, token, rfl, hk⟩), ?_⟩
      simp only [if_true, reads_pure, and_self]
    · refine ⟨false, tokens, (reads_accept hclose).mpr (.inr ⟨rfl, hk, rfl⟩), ?_⟩
      simp only [Bool.false_eq_true, if_false, reads_bind, reads_pure, reads_expect hclose]
      exact ⟨a, mid, hi, as', _, hc, token, rest, ⟨rfl, hk'⟩, rfl, rfl⟩

theorem reads_commaItems_map {f : α → β} {bound : Nat} {bs : List β} :
    (commaItems (f <$> item) bound).Reads tokens bs rest ↔
      ∃ as, (commaItems item bound).Reads tokens as rest ∧ as.map f = bs := by
  induction bound generalizing tokens bs with
  | zero =>
    simp only [reads_commaItems_zero]
    constructor
    · intro h
      obtain ⟨rfl, rfl⟩ := h
      exact ⟨[], ⟨rfl, rfl⟩, rfl⟩
    · intro h
      obtain ⟨_, ⟨rfl, rfl⟩, rfl⟩ := h
      exact ⟨rfl, rfl⟩
  | succ bound ih =>
    simp only [reads_commaItems_succ, reads_map, ih]
    constructor
    · intro h
      rcases h with ⟨rfl, hk, rfl⟩ | ⟨comma, others, _, _, mid, rfl, hk, ⟨a, hi, rfl⟩, ⟨as, hc,
        rfl⟩, rfl⟩
      · exact ⟨[], .inl ⟨rfl, hk, rfl⟩, rfl⟩
      · exact ⟨a :: as, .inr ⟨comma, others, a, as, mid, rfl, hk, hi, hc, rfl⟩, rfl⟩
    · intro h
      obtain ⟨as, h, rfl⟩ := h
      rcases h with ⟨rfl, hk, rfl⟩ | ⟨comma, others, a, as, mid, rfl, hk, hi, hc, rfl⟩
      · exact .inl ⟨rfl, hk, rfl⟩
      · exact .inr ⟨comma, others, _, _, mid, rfl, hk, ⟨a, hi, rfl⟩, ⟨as, hc, rfl⟩, rfl⟩

theorem reads_listUntil_map (hclose : close ≠ .eof) {f : α → β} {bound : Nat} {bs : List β} :
    (listUntil close (f <$> item) bound).Reads tokens bs rest ↔
      ∃ as, (listUntil close item bound).Reads tokens as rest ∧ as.map f = bs := by
  simp only [reads_listUntil hclose, reads_map, reads_commaItems_map]
  constructor
  · intro h
    rcases h with ⟨rfl, ht⟩ | ⟨hk, _, _, mid, token, ⟨a, hi, rfl⟩, ⟨as, hc, rfl⟩, hk', rfl⟩
    · exact ⟨[], .inl ⟨rfl, ht⟩, rfl⟩
    · exact ⟨a :: as, .inr ⟨hk, a, as, mid, token, hi, hc, hk', rfl⟩, rfl⟩
  · intro h
    obtain ⟨as, h, rfl⟩ := h
    rcases h with ⟨rfl, ht⟩ | ⟨hk, a, as, mid, token, hi, hc, hk', rfl⟩
    · exact .inl ⟨rfl, ht⟩
    · exact .inr ⟨hk, _, _, mid, token, ⟨a, hi, rfl⟩, ⟨as, hc, rfl⟩, hk', rfl⟩

theorem reads_statementsUntil_succ {statement : Reader Node} {bound : Nat} {nodes : List Node} :
    (statementsUntil close statement (bound + 1)).Reads tokens nodes rest ↔
      ((front tokens = .eof ∨ front tokens = close) ∧ nodes = [] ∧ tokens = rest) ∨
      (¬ (front tokens = .eof ∨ front tokens = close) ∧ ∃ node others mid,
        statement.Reads tokens node mid ∧
        (statementsUntil close statement bound).Reads mid others rest ∧
        nodes = node :: others) := by
  simp only [statementsUntil, reads_bind, reads_peek]
  constructor
  · intro h
    obtain ⟨_, _, ⟨rfl, rfl⟩, h⟩ := h
    split at h
    · next hk =>
      obtain ⟨rfl, rfl⟩ := reads_pure.mp h
      exact .inl ⟨hk, rfl, rfl⟩
    · next hk =>
      simp only [reads_bind, reads_attempt, reads_pure] at h
      obtain ⟨_, mid, ⟨node, hs, rfl⟩, others, _, ho, rfl, rfl⟩ := h
      exact .inr ⟨hk, node, others, mid, hs, ho, rfl⟩
  · intro h
    rcases h with ⟨hk, rfl, rfl⟩ | ⟨hk, node, others, mid, hs, ho, rfl⟩
    · refine ⟨_, tokens, ⟨rfl, rfl⟩, ?_⟩
      rw [if_pos (by exact hk)]
      exact reads_pure.mpr ⟨rfl, rfl⟩
    · refine ⟨_, tokens, ⟨rfl, rfl⟩, ?_⟩
      rw [if_neg (by exact hk)]
      simp only [reads_bind, reads_attempt, reads_pure]
      exact ⟨_, mid, ⟨node, hs, rfl⟩, others, rest, ho, rfl, rfl⟩

/-- A statement that is read without loss joins those behind it, whatever becomes of them. -/
theorem statementsUntil_step {statement : Reader Node} {bound : Nat} {node : Node}
    {mid : List Token} (hfront : ¬ (front tokens = .eof ∨ front tokens = close))
    (h : statement.Reads tokens node mid) {others : List Node} {dropped : List ParseError}
    (hothers : statementsUntil close statement bound mid = ⟨.ok others, dropped, rest⟩) :
    statementsUntil close statement (bound + 1) tokens = ⟨.ok (node :: others), dropped, rest⟩ := by
  have hfirst : (attempt statement).Reads tokens (some node) mid := reads_attempt.mpr ⟨node, h, rfl⟩
  rw [statementsUntil, peek_bind, if_neg (by exact hfront), hfirst.bind_eq]
  simp only [bind, andThen, hothers, pure, done, List.append_nil]
  rfl

theorem reads_binder {node : Node} :
    binder.Reads tokens node rest ↔
      ∃ name, tokens = name :: rest ∧ name.kind = .ident ∧ node = .ident name name.literal := by
  simp only [binder, reads_bind, reads_expect (show Kind.ident ≠ .eof by decide), reads_pure]
  constructor
  · intro h
    obtain ⟨name, _, ⟨rfl, hk⟩, rfl, rfl⟩ := h
    exact ⟨name, rfl, hk, rfl⟩
  · intro h
    obtain ⟨name, rfl, hk, rfl⟩ := h
    exact ⟨name, rest, ⟨rfl, hk⟩, rfl, rfl⟩

theorem reads_parameter {node : Node} :
    parameter.Reads tokens node rest ↔
      ∃ name, tokens = name :: rest ∧ name.kind = .ident ∧ node = .ident name name.literal := by
  simp only [parameter, reads_bind, reads_next]
  constructor
  · intro h
    obtain ⟨_, _, ⟨rfl, rfl⟩, h⟩ := h
    split at h
    · next hk =>
      obtain ⟨rfl, rfl⟩ := reads_pure.mp h
      exact ⟨_, cons_of_front (by decide) hk, hk, rfl⟩
    · exact absurd h reads_fail
  · intro h
    obtain ⟨name, rfl, hk, rfl⟩ := h
    refine ⟨name, rest, ⟨rfl, rfl⟩, ?_⟩
    rw [if_pos hk]
    exact reads_pure.mpr ⟨rfl, rfl⟩

section Forms

variable {expr : Precedence → Reader Node} {bound : Nat} {token : Token} {node : Node}

theorem reads_letStmt :
    (letStmt expr token).Reads tokens node rest ↔
      ∃ name sign others value mid taken, tokens = name :: sign :: others ∧
        name.kind = .ident ∧ sign.kind = .assign ∧ (expr .lowest).Reads others value mid ∧
        (accept .semicolon).Reads mid taken rest ∧
        node = .letStmt token (.ident name name.literal) value := by
  simp only [letStmt, reads_bind, reads_binder, reads_pure,
    reads_expect (show Kind.assign ≠ .eof by decide)]
  constructor
  · intro h
    obtain ⟨_, _, ⟨name, rfl, hn, rfl⟩, sign, others, ⟨rfl, hs⟩, value, mid, he, taken, _, ha, rfl,
      rfl⟩ := h
    exact ⟨name, sign, others, value, mid, taken, rfl, hn, hs, he, ha, rfl⟩
  · intro h
    obtain ⟨name, sign, others, value, mid, taken, rfl, hn, hs, he, ha, rfl⟩ := h
    exact ⟨_, _, ⟨name, rfl, hn, rfl⟩, sign, others, ⟨rfl, hs⟩, value, mid, he, taken, rest, ha,
      rfl, rfl⟩

theorem reads_returnStmt :
    (returnStmt expr token).Reads tokens node rest ↔
      ∃ value mid taken, (expr .lowest).Reads tokens value mid ∧
        (accept .semicolon).Reads mid taken rest ∧ node = .returnStmt token value := by
  simp only [returnStmt, reads_bind, reads_pure]
  constructor
  · intro h
    obtain ⟨value, mid, he, taken, _, ha, rfl, rfl⟩ := h
    exact ⟨value, mid, taken, he, ha, rfl⟩
  · intro h
    obtain ⟨value, mid, taken, he, ha, rfl⟩ := h
    exact ⟨value, mid, he, taken, rest, ha, rfl, rfl⟩

theorem reads_exprStmt :
    (exprStmt expr token).Reads tokens node rest ↔
      ∃ value mid taken, (expr .lowest).Reads tokens value mid ∧
        (accept .semicolon).Reads mid taken rest ∧ node = .exprStmt token value := by
  simp only [exprStmt, reads_bind, reads_pure]
  constructor
  · intro h
    obtain ⟨value, mid, he, taken, _, ha, rfl, rfl⟩ := h
    exact ⟨value, mid, taken, he, ha, rfl⟩
  · intro h
    obtain ⟨value, mid, taken, he, ha, rfl⟩ := h
    exact ⟨value, mid, he, taken, rest, ha, rfl, rfl⟩

theorem reads_statement_let (hk : token.kind = .kwLet) :
    (statement expr).Reads (token :: tokens) node rest ↔
      (letStmt expr token).Reads tokens node rest := by
  simp [statement, reads_bind, reads_peek, reads_next, hk]

theorem reads_statement_return (hk : token.kind = .kwReturn) :
    (statement expr).Reads (token :: tokens) node rest ↔
      (returnStmt expr token).Reads tokens node rest := by
  simp [statement, reads_bind, reads_peek, reads_next, hk]

theorem reads_statement_expr (hl : front tokens ≠ .kwLet) (hr : front tokens ≠ .kwReturn) :
    (statement expr).Reads tokens node rest ↔
      (exprStmt expr (tokens.head?.getD .eof)).Reads tokens node rest := by
  simp only [statement, reads_bind, reads_peek]
  constructor
  · intro h
    obtain ⟨_, _, ⟨rfl, rfl⟩, h⟩ := h
    split at h
    · exact absurd ‹_› hl
    · exact absurd ‹_› hr
    · exact h
  · intro h
    refine ⟨_, tokens, ⟨rfl, rfl⟩, ?_⟩
    split
    · exact absurd ‹_› hl
    · exact absurd ‹_› hr
    · exact h

theorem reads_block :
    (block expr bound).Reads tokens node rest ↔
      ∃ brace others nodes mid taken, tokens = brace :: others ∧ brace.kind = .lbrace ∧
        (statementsUntil .rbrace (statement expr) bound).Reads others nodes mid ∧
        (accept .rbrace).Reads mid taken rest ∧ node = .block brace nodes := by
  simp only [block, reads_bind, reads_pure, reads_expect (show Kind.lbrace ≠ .eof by decide)]
  constructor
  · intro h
    obtain ⟨brace, others, ⟨rfl, hb⟩, nodes, mid, hs, taken, _, ha, rfl, rfl⟩ := h
    exact ⟨brace, others, nodes, mid, taken, rfl, hb, hs, ha, rfl⟩
  · intro h
    obtain ⟨brace, others, nodes, mid, taken, rfl, hb, hs, ha, rfl⟩ := h
    exact ⟨brace, others, ⟨rfl, hb⟩, nodes, mid, hs, taken, rest, ha, rfl, rfl⟩

theorem reads_grouped :
    (grouped expr).Reads tokens node rest ↔
      ∃ close, (expr .lowest).Reads tokens node (close :: rest) ∧ close.kind = .rparen := by
  simp only [grouped, reads_bind, reads_pure, reads_expect (show Kind.rparen ≠ .eof by decide)]
  constructor
  · intro h
    obtain ⟨_, _, he, close, _, ⟨rfl, hk⟩, rfl, rfl⟩ := h
    exact ⟨close, he, hk⟩
  · intro h
    obtain ⟨close, he, hk⟩ := h
    exact ⟨node, _, he, close, rest, ⟨rfl, hk⟩, rfl, rfl⟩

theorem reads_hashPair {pair : Node × Node} :
    (hashPair expr).Reads tokens pair rest ↔
      ∃ colon mid, (expr .lowest).Reads tokens pair.1 (colon :: mid) ∧ colon.kind = .colon ∧
        (expr .lowest).Reads mid pair.2 rest := by
  simp only [hashPair, reads_bind, reads_pure, reads_expect (show Kind.colon ≠ .eof by decide)]
  constructor
  · intro h
    obtain ⟨_, _, hk, colon, mid, ⟨rfl, hc⟩, _, _, hv, rfl, rfl⟩ := h
    exact ⟨colon, mid, hk, hc, hv⟩
  · intro h
    obtain ⟨colon, mid, hk, hc, hv⟩ := h
    exact ⟨_, _, hk, colon, mid, ⟨rfl, hc⟩, _, _, hv, rfl, rfl⟩

theorem reads_function :
    (function expr bound token).Reads tokens node rest ↔
      ∃ paren others params mid body, tokens = paren :: others ∧ paren.kind = .lparen ∧
        (listUntil .rparen parameter bound).Reads others params mid ∧
        (block expr bound).Reads mid body rest ∧ node = .fn token params body := by
  simp only [function, reads_bind, reads_pure, reads_expect (show Kind.lparen ≠ .eof by decide)]
  constructor
  · intro h
    obtain ⟨paren, others, ⟨rfl, hp⟩, params, mid, hl, body, _, hb, rfl, rfl⟩ := h
    exact ⟨paren, others, params, mid, body, rfl, hp, hl, hb, rfl⟩
  · intro h
    obtain ⟨paren, others, params, mid, body, rfl, hp, hl, hb, rfl⟩ := h
    exact ⟨paren, others, ⟨rfl, hp⟩, params, mid, hl, body, rest, hb, rfl, rfl⟩

theorem reads_conditional :
    (conditional expr bound token).Reads tokens node rest ↔
      ∃ paren others condition close mid consequence tail, tokens = paren :: others ∧
        paren.kind = .lparen ∧ (expr .lowest).Reads others condition (close :: mid) ∧
        close.kind = .rparen ∧ (block expr bound).Reads mid consequence tail ∧
        ((front tail ≠ .kwElse ∧ tail = rest ∧ node = .cond token condition consequence none) ∨
          ∃ word others alternative, tail = word :: others ∧ word.kind = .kwElse ∧
            (block expr bound).Reads others alternative rest ∧
            node = .cond token condition consequence (some alternative)) := by
  simp only [conditional, reads_bind, reads_expect (show Kind.lparen ≠ .eof by decide),
    reads_expect (show Kind.rparen ≠ .eof by decide)]
  constructor
  · intro h
    obtain ⟨paren, others, ⟨rfl, hp⟩, condition, _, he, close, mid, ⟨rfl, hc⟩, consequence, tail,
      hb, taken, _, ha, h⟩ := h
    refine ⟨paren, others, condition, close, mid, consequence, tail, rfl, hp, he, hc, hb, ?_⟩
    rcases (reads_accept (by decide)).mp ha with ⟨rfl, word, rfl, hw⟩ | ⟨rfl, hw, rfl⟩
    · simp only [if_true, reads_bind, reads_pure] at h
      obtain ⟨alternative, _, hb', rfl, rfl⟩ := h
      exact .inr ⟨word, _, alternative, rfl, hw, hb', rfl⟩
    · simp only [Bool.false_eq_true, if_false, reads_pure] at h
      exact .inl ⟨hw, h.2, h.1.symm⟩
  · intro h
    obtain ⟨paren, others, condition, close, mid, consequence, tail, rfl, hp, he, hc, hb, h⟩ := h
    refine ⟨paren, others, ⟨rfl, hp⟩, condition, _, he, close, mid, ⟨rfl, hc⟩, consequence, tail,
      hb, ?_⟩
    rcases h with ⟨hw, rfl, rfl⟩ | ⟨word, others, alternative, rfl, hw, hb', rfl⟩
    · refine ⟨false, tail, (reads_accept (by decide)).mpr (.inr ⟨rfl, hw, rfl⟩), ?_⟩
      simp only [Bool.false_eq_true, if_false, reads_pure, and_self]
    · refine ⟨true, others, (reads_accept (by decide)).mpr (.inl ⟨rfl, word, rfl, hw⟩), ?_⟩
      simp only [if_true, reads_bind, reads_pure]
      exact ⟨alternative, rest, hb', rfl, rfl⟩

theorem reads_continuation_call {left : Node} (hk : token.kind = .lparen) :
    (continuation expr bound left token).Reads tokens node rest ↔
      ∃ args, (listUntil .rparen (expr .lowest) bound).Reads tokens args rest ∧
        node = .call token left args := by
  simp only [continuation, hk, reads_bind, reads_pure]
  constructor
  · intro h
    obtain ⟨args, _, hl, rfl, rfl⟩ := h
    exact ⟨args, hl, rfl⟩
  · intro h
    obtain ⟨args, hl, rfl⟩ := h
    exact ⟨args, rest, hl, rfl, rfl⟩

theorem reads_continuation_index {left : Node} (hk : token.kind = .lbracket) :
    (continuation expr bound left token).Reads tokens node rest ↔
      ∃ key close, (expr .lowest).Reads tokens key (close :: rest) ∧ close.kind = .rbracket ∧
        node = .index token left key := by
  simp only [continuation, hk, reads_bind, reads_pure,
    reads_expect (show Kind.rbracket ≠ .eof by decide)]
  constructor
  · intro h
    obtain ⟨key, _, he, close, _, ⟨rfl, hc⟩, rfl, rfl⟩ := h
    exact ⟨key, close, he, hc, rfl⟩
  · intro h
    obtain ⟨key, close, he, hc, rfl⟩ := h
    exact ⟨key, _, he, close, rest, ⟨rfl, hc⟩, rfl, rfl⟩

theorem reads_continuation_operator {left : Node} (hp : token.kind ≠ .lparen)
    (hb : token.kind ≠ .lbracket) :
    (continuation expr bound left token).Reads tokens node rest ↔
      ∃ right, (expr (.ofKind token.kind)).Reads tokens right rest ∧
        node = .infixOp token left token.literal right := by
  have he : continuation expr bound left token =
      (do return .infixOp token left token.literal (← expr (.ofKind token.kind))) := by
    unfold continuation
    split
    · exact absurd ‹_› hp
    · exact absurd ‹_› hb
    · rfl
  rw [he]
  simp only [reads_bind, reads_pure]
  constructor
  · intro h
    obtain ⟨right, _, hr, rfl, rfl⟩ := h
    exact ⟨right, hr, rfl⟩
  · intro h
    obtain ⟨right, hr, rfl⟩ := h
    exact ⟨right, rest, hr, rfl, rfl⟩

end Forms

end MonkeyLang.Reader
