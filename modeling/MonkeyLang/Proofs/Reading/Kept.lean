import MonkeyLang.Proofs.Grammar.Sound
import MonkeyLang.Proofs.Node.Readable
import MonkeyLang.Reader.Program

/-!
All that reading keeps of the tokens of a text can be read, also where statements were dropped.
-/

namespace MonkeyLang

/-- All tokens are spelled by some text. -/
def Lexed (tokens : List Token) : Prop := ∀ token ∈ tokens, token.IsLexeme

theorem Lexed.head {tokens : List Token} (h : Lexed tokens) :
    tokens.head?.getD .eof = .eof ∨ (tokens.head?.getD .eof).IsLexeme := by
  cases tokens with
  | nil => exact .inl rfl
  | cons token others => exact .inr (h token (List.mem_cons_self ..))

theorem Lexed.tail {tokens : List Token} (h : Lexed tokens) : Lexed tokens.tail :=
  fun token ht ↦ h token (List.mem_of_mem_tail ht)

/-- The reader leaves some of the tokens of a text and gives, if anything, what satisfies `P`. -/
def Reader.Keeps {α : Type} (P : α → Prop) (p : Reader α) : Prop :=
  ∀ tokens, Lexed tokens → Lexed (p tokens).rest ∧ ∀ a, (p tokens).outcome = .ok a → P a

namespace Reader

section Keeps

variable {α β : Type} {P : α → Prop} {R : β → Prop} {p : Reader α} {f : α → Reader β} {a : α}
  {close kind : Kind}

theorem keeps_pure (h : P a) : Keeps P (pure a : Reader α) := by
  intro tokens ht
  refine ⟨ht, fun b hb ↦ ?_⟩
  cases hb
  exact h

theorem keeps_fail (cause : ParseError) : Keeps P (fail cause : Reader α) :=
  fun _ ht ↦ ⟨ht, fun _ ha ↦ by cases ha⟩

theorem keeps_bind (h : Keeps P p) (hf : ∀ a, P a → Keeps R (f a)) : Keeps R (p >>= f) := by
  intro tokens ht
  obtain ⟨hrest, hp⟩ := h tokens ht
  change Lexed (andThen p f tokens).rest ∧ ∀ b, (andThen p f tokens).outcome = .ok b → R b
  rw [andThen]
  rcases hread : p tokens with ⟨cause | a, dropped, rest⟩
  · rw [hread] at hrest
    exact ⟨hrest, fun b hb ↦ by cases hb⟩
  · rw [hread] at hrest hp
    exact hf a (hp a rfl) rest hrest

theorem keeps_peek : Keeps (fun token ↦ token = .eof ∨ token.IsLexeme) peek := by
  intro tokens ht
  refine ⟨ht, fun token he ↦ ?_⟩
  cases he
  exact ht.head

theorem keeps_next : Keeps (fun token ↦ token = .eof ∨ token.IsLexeme) next := by
  intro tokens ht
  refine ⟨ht.tail, fun token he ↦ ?_⟩
  cases he
  exact ht.head

theorem keeps_expect (hk : kind ≠ .eof) :
    Keeps (fun token ↦ token.kind = kind ∧ token.IsLexeme) (expect kind) := by
  intro tokens ht
  rw [expect, peek_bind]
  split
  · next hkind =>
    refine ⟨ht.tail, fun token he ↦ ?_⟩
    cases he
    refine ⟨hkind, ht.head.resolve_left fun he ↦ hk ?_⟩
    rw [← hkind, he, Token.eof]
  · exact keeps_fail _ tokens ht

theorem keeps_accept : Keeps (fun _ ↦ True) (accept kind) := by
  refine keeps_bind keeps_peek fun token _ ↦ ?_
  split
  · exact keeps_bind keeps_next fun _ _ ↦ keeps_pure trivial
  · exact keeps_pure trivial

theorem keeps_attempt (h : Keeps P p) : Keeps (fun o ↦ ∀ a ∈ o, P a) (attempt p) := by
  intro tokens ht
  obtain ⟨hrest, hp⟩ := h tokens ht
  rw [attempt]
  rcases hread : p tokens with ⟨cause | a, dropped, rest⟩
  · rw [hread] at hrest
    refine ⟨hrest, fun o ho ↦ ?_⟩
    cases ho
    exact fun _ ha ↦ by cases ha
  · rw [hread] at hrest hp
    refine ⟨hrest, fun o ho ↦ ?_⟩
    cases ho
    rintro _ ⟨⟩
    exact hp a rfl

theorem keeps_commaItems (h : Keeps P p) (bound : Nat) :
    Keeps (fun as ↦ ∀ a ∈ as, P a) (commaItems p bound) := by
  induction bound with
  | zero => exact keeps_pure fun _ ha ↦ by cases ha
  | succ bound ih =>
    refine keeps_bind keeps_accept fun taken _ ↦ ?_
    split
    · refine keeps_bind h fun a ha ↦ keeps_bind ih fun as has ↦ keeps_pure ?_
      exact List.forall_mem_cons.mpr ⟨ha, has⟩
    · exact keeps_pure fun _ ha ↦ by cases ha

theorem keeps_listUntil (h : Keeps P p) (hclose : close ≠ .eof) (bound : Nat) :
    Keeps (fun as ↦ ∀ a ∈ as, P a) (listUntil close p bound) := by
  refine keeps_bind keeps_accept fun taken _ ↦ ?_
  split
  · exact keeps_pure fun _ ha ↦ by cases ha
  · refine keeps_bind h fun a ha ↦ keeps_bind (keeps_commaItems h bound) fun as has ↦ ?_
    exact keeps_bind (keeps_expect hclose) fun _ _ ↦
      keeps_pure (List.forall_mem_cons.mpr ⟨ha, has⟩)

theorem keeps_statementsUntil {P : Node → Prop} {statement : Reader Node}
    (h : Keeps P statement) (bound : Nat) :
    Keeps (fun nodes ↦ ∀ node ∈ nodes, P node) (statementsUntil close statement bound) := by
  induction bound with
  | zero => exact keeps_pure fun _ hn ↦ by cases hn
  | succ bound ih =>
    refine keeps_bind keeps_peek fun token _ ↦ ?_
    dsimp only
    split
    · exact keeps_pure fun _ hn ↦ by cases hn
    · refine keeps_bind (keeps_attempt h) fun first hfirst ↦ ?_
      refine keeps_bind ih fun others hothers ↦ keeps_pure fun node hn ↦ ?_
      rcases List.mem_append.mp hn with hn | hn
      · exact hfirst node (Option.mem_toList.mp hn)
      · exact hothers node hn

end Keeps

end Reader

section Lexemes

variable {token : Token}

theorem readable_name (h : token.kind = .ident ∧ token.IsLexeme) :
    (Node.ident token token.literal).Readable .name := by
  obtain ⟨hk, hlex⟩ := h
  rw [Token.IsLexeme, hk] at hlex
  exact .name hlex.1 hlex.2

/-- Only words, numbers, strings and characters of no token have literals of their own. -/
theorem literal_eq_display (hlex : token.IsLexeme)
    (hk : token.kind ∈ [.bang, .eq, .notEq, .lt, .gt, .plus, .minus, .asterisk, .slash]) :
    token.literal = token.kind.display := by
  obtain ⟨kind, literal⟩ := token
  cases kind <;> first | exact hlex | exact absurd hk (by simp)

theorem literal_of_prefixOp (hlex : token.IsLexeme)
    (hk : token.kind = .bang ∨ token.kind = .minus) : token.literal ∈ ["!", "-"] := by
  rw [literal_eq_display hlex (by rcases hk with hk | hk <;> simp [hk])]
  rcases hk with hk | hk <;> rw [hk] <;> decide

theorem literal_of_operator {tier : Tier} (hlex : token.IsLexeme)
    (hk : token.kind ∈ tier.operators) :
    token.literal ∈ ["+", "-", "*", "/", "<", ">", "==", "!="] := by
  have hkinds : token.kind ∈ [.eq, .notEq, .lt, .gt, .plus, .minus, .asterisk, .slash] := by
    cases tier <;> revert hk <;> simp [Tier.operators] <;> tauto
  rw [literal_eq_display hlex (List.mem_cons_of_mem _ hkinds)]
  revert hkinds
  generalize token.kind = kind
  cases kind <;> decide

end Lexemes

namespace Reader

section Forms

variable {expr : Precedence → Reader Node} {bound : Nat}

theorem keeps_binder : Keeps (Node.Readable .name) binder :=
  keeps_bind (keeps_expect (by decide)) fun _ htoken ↦ keeps_pure (readable_name htoken)

theorem keeps_parameter : Keeps (Node.Readable .name) parameter := by
  refine keeps_bind keeps_next fun token htoken ↦ ?_
  split
  · next hk =>
    refine keeps_pure (readable_name ⟨hk, htoken.resolve_left fun he ↦ ?_⟩)
    rw [he] at hk
    cases hk
  · exact keeps_fail _

variable (h : ∀ precedence, Keeps (Node.Readable .expression) (expr precedence))

include h

theorem keeps_letStmt (token : Token) : Keeps (Node.Readable .statement) (letStmt expr token) := by
  refine keeps_bind keeps_binder fun name hname ↦ keeps_bind (keeps_expect (by decide)) fun _ _ ↦ ?_
  exact keeps_bind (h _) fun value hvalue ↦ keeps_bind keeps_accept fun _ _ ↦
    keeps_pure (.letStmt hname hvalue)

theorem keeps_returnStmt (token : Token) :
    Keeps (Node.Readable .statement) (returnStmt expr token) :=
  keeps_bind (h _) fun _ hvalue ↦ keeps_bind keeps_accept fun _ _ ↦ keeps_pure (.returnStmt hvalue)

theorem keeps_exprStmt (token : Token) : Keeps (Node.Readable .statement) (exprStmt expr token) :=
  keeps_bind (h _) fun _ hvalue ↦ keeps_bind keeps_accept fun _ _ ↦ keeps_pure (.exprStmt hvalue)

theorem keeps_statement : Keeps (Node.Readable .statement) (statement expr) := by
  refine keeps_bind keeps_peek fun token _ ↦ ?_
  split
  · exact keeps_bind keeps_next fun token _ ↦ keeps_letStmt h token
  · exact keeps_bind keeps_next fun token _ ↦ keeps_returnStmt h token
  · exact keeps_exprStmt h token

theorem keeps_block : Keeps (Node.Readable .block) (block expr bound) := by
  refine keeps_bind (keeps_expect (by decide)) fun brace _ ↦ ?_
  refine keeps_bind (keeps_statementsUntil (keeps_statement h) bound) fun nodes hnodes ↦ ?_
  exact keeps_bind keeps_accept fun _ _ ↦ keeps_pure (.block hnodes)

theorem keeps_grouped : Keeps (Node.Readable .expression) (grouped expr) :=
  keeps_bind (h _) fun _ hinner ↦ keeps_bind (keeps_expect (by decide)) fun _ _ ↦ keeps_pure hinner

theorem keeps_conditional (token : Token) :
    Keeps (Node.Readable .expression) (conditional expr bound token) := by
  refine keeps_bind (keeps_expect (by decide)) fun _ _ ↦ keeps_bind (h _) fun _ hcondition ↦ ?_
  refine keeps_bind (keeps_expect (by decide)) fun _ _ ↦ ?_
  refine keeps_bind (keeps_block h) fun _ hblock ↦ keeps_bind keeps_accept fun taken _ ↦ ?_
  split
  · exact keeps_bind (keeps_block h) fun _ halt ↦ keeps_pure (.condElse hcondition hblock halt)
  · exact keeps_pure (.cond hcondition hblock)

theorem keeps_function (token : Token) :
    Keeps (Node.Readable .expression) (function expr bound token) := by
  refine keeps_bind (keeps_expect (by decide)) fun _ _ ↦ ?_
  refine keeps_bind (keeps_listUntil keeps_parameter (by decide) bound) fun params hparams ↦ ?_
  exact keeps_bind (keeps_block h) fun _ hbody ↦ keeps_pure (.fn hparams hbody)

theorem keeps_hashPair :
    Keeps (fun pair : Node × Node ↦ pair.1.Readable .expression ∧ pair.2.Readable .expression)
      (hashPair expr) := by
  refine keeps_bind (h _) fun key hkey ↦ keeps_bind (keeps_expect (by decide)) fun _ _ ↦ ?_
  exact keeps_bind (h _) fun value hvalue ↦ keeps_pure ⟨hkey, hvalue⟩

theorem keeps_operand : Keeps (Node.Readable .expression) (operand expr bound) := by
  refine keeps_bind keeps_next fun token htoken ↦ ?_
  have hlex : token.kind ≠ .eof → token.IsLexeme := fun hk ↦
    htoken.resolve_left fun he ↦ hk (by rw [he, Token.eof])
  split
  case h_1 hk => exact keeps_pure (.ident (readable_name ⟨hk, hlex (by rw [hk]; decide)⟩))
  case h_2 hk =>
    rw [integer]
    split
    · next hmax => exact keeps_pure (.int (by omega) (by omega))
    · exact keeps_fail _
  case h_3 hk =>
    have hstring := hlex (by rw [hk]; decide)
    rw [Token.IsLexeme, hk] at hstring
    exact keeps_pure (.str hstring)
  case h_4 | h_5 => exact keeps_pure .bool
  case h_6 hk | h_7 hk =>
    have hop := literal_of_prefixOp (hlex (by rw [hk]; decide)) (by simp [hk])
    exact keeps_bind (h _) fun _ hoperand ↦ keeps_pure (.prefixOp hop hoperand)
  case h_8 => exact keeps_grouped h
  case h_9 => exact keeps_conditional h token
  case h_10 => exact keeps_function h token
  case h_11 =>
    exact keeps_bind (keeps_listUntil (h _) (by decide) bound) fun _ hnodes ↦
      keeps_pure (.array hnodes)
  case h_12 =>
    exact keeps_bind (keeps_listUntil (keeps_hashPair h) (by decide) bound) fun _ hpairs ↦
      keeps_pure (.hash (fun pair hp ↦ (hpairs pair hp).1) fun pair hp ↦ (hpairs pair hp).2)
  case h_13 => exact keeps_fail _

theorem keeps_continuation {left : Node} {token : Token} {precedence : Precedence}
    (hleft : left.Readable .expression) (hlex : token.IsLexeme)
    (hlt : precedence.level < (Precedence.ofKind token.kind).level) :
    Keeps (Node.Readable .expression) (continuation expr bound left token) := by
  rw [continuation]
  split
  case h_1 =>
    exact keeps_bind (keeps_listUntil (h _) (by decide) bound) fun _ hargs ↦
      keeps_pure (.call hleft hargs)
  case h_2 =>
    refine keeps_bind (h _) fun _ hkey ↦ keeps_bind (keeps_expect (by decide)) fun _ _ ↦ ?_
    exact keeps_pure (.index hleft hkey)
  case h_3 hp hb =>
    obtain ⟨tier, _, hop, _⟩ := ((Kind.bracket_or_operator hlt).resolve_left hp).resolve_left hb
    exact keeps_bind (h _) fun _ hright ↦
      keeps_pure (.infixOp (literal_of_operator hlex hop) hleft hright)

theorem keeps_continuations (precedence : Precedence) (count : Nat) {left : Node}
    (hleft : left.Readable .expression) :
    Keeps (Node.Readable .expression) (continuations expr bound precedence count left) := by
  induction count generalizing left with
  | zero => exact keeps_pure hleft
  | succ count ih =>
    intro tokens ht
    rw [continuations, peek_bind]
    split
    · next hlt =>
      rw [next_bind]
      have hlex : (tokens.head?.getD .eof).IsLexeme := by
        refine ht.head.resolve_left fun he ↦ ?_
        rw [he] at hlt
        exact absurd hlt (Nat.not_lt.mpr (by cases precedence <;> decide))
      exact keeps_bind (keeps_continuation h hleft hlex hlt) (fun _ hlonger ↦ ih hlonger) _ ht.tail
    · exact keeps_pure hleft tokens ht

end Forms

theorem keeps_expr (bound : Nat) (precedence : Precedence) :
    Keeps (Node.Readable .expression) (Reader.expr bound precedence) := by
  induction bound generalizing precedence with
  | zero => exact keeps_bind keeps_next fun _ _ ↦ keeps_fail _
  | succ bound ih =>
    exact keeps_bind (keeps_operand ih) fun _ hleft ↦ keeps_continuations ih precedence bound hleft

end Reader

open Reader in
/-- The program that reading a text keeps can be read. -/
theorem parse_readable (text : String) : (parse text).program.Readable .program := by
  have hlex : Lexed (Token.ofText text) := Token.takeTokens_isLexeme _ _
  have hkeeps : Keeps (fun nodes ↦ ∀ node ∈ nodes, Node.Readable .statement node)
      (statementsUntil .eof (Reader.statement (Reader.expr (Token.ofText text).length))
        (Token.ofText text).length) :=
    keeps_statementsUntil (keeps_statement (keeps_expr _)) _
  obtain ⟨_, hnodes⟩ := hkeeps _ hlex
  refine .program fun node hn ↦ ?_
  rw [parse, parseTokens] at hn
  generalize houtcome : (statementsUntil .eof _ _ (Token.ofText text)).outcome = outcome
    at hn hnodes
  cases outcome with
  | error cause => cases hn
  | ok nodes => exact hnodes nodes rfl node hn

end MonkeyLang
