import MonkeyLang.Proofs.Grammar.Sound
import MonkeyLang.Proofs.Node.Stored
import MonkeyLang.Proofs.Reading.Bound

/-!
The nodes that reading keeps are faithful to the tokens of the text, also where statements were
dropped: each stores a token of its own, of the kind that goes with its form, and all these tokens
stand in the text in the order of the nodes.
-/

namespace MonkeyLang

/-- To read a statement from these tokens gives the node. -/
def Reader.StatementAt (start : List Token) (node : Node) : Prop :=
  (Reader.statement (Reader.expr start.length) start).outcome = .ok node

/-- The node stores one of the tokens, as its form demands. A statement is what is read where its
token stands. -/
structure Node.Faithful (all : List Token) (node : Node) : Prop where
  documented : node.Documented
  stored : ∃ token ∈ all, node.token? = some token
  first : ∀ token ∈ node.opening?, ∃ start, start <:+ all ∧ start.head? = some token ∧
    Reader.StatementAt start node

/-- A node and all those below it are faithful to the tokens. -/
def Node.AllFaithful (all : List Token) (node : Node) : Prop :=
  ∀ inner ∈ node.nested, inner.Faithful all

namespace Node

variable {all : List Token} {node : Node}

theorem Faithful.allFaithful (h : node.Faithful all)
    (hchildren : ∀ child ∈ node.children, child.AllFaithful all) : node.AllFaithful all := by
  intro inner hinner
  rcases mem_nested.mp hinner with rfl | ⟨child, hchild, hinner⟩
  · exact h
  · exact hchildren child hchild inner hinner

/-- A node that is no let, return or expression statement need not be looked up in the text. -/
theorem allFaithful_of_documented {token : Token} (hdocumented : node.Documented)
    (htoken : token ∈ all) (hstored : node.token? = some token) (hopening : node.opening? = none)
    (hchildren : ∀ child ∈ node.children, child.AllFaithful all) : node.AllFaithful all :=
  Faithful.allFaithful
    ⟨hdocumented, ⟨token, htoken, hstored⟩, fun _ h ↦ by rw [hopening] at h; cases h⟩ hchildren

end Node

namespace Reader

/-- At most `most` tokens are left of the tokens of a text. What is read from them satisfies `P`,
and the tokens that are listed for it stand, in their order, among those of `before` and those that
are read. -/
def Places {α : Type} (all : List Token) (most : Nat) (before : List Token)
    (listed : α → List Token) (P : α → Prop) (p : Reader α) : Prop :=
  ∀ tokens, tokens <:+ all → tokens.length ≤ most →
    (p tokens).rest <:+ tokens ∧ ∀ a, (p tokens).outcome = .ok a →
      P a ∧ (listed a ++ (p tokens).rest).Sublist (before ++ tokens)

section Places

variable {α β : Type} {all before : List Token} {most : Nat} {listed : α → List Token}
  {listed' : β → List Token} {P : α → Prop} {R : β → Prop} {p : Reader α} {f : α → Reader β} {a : α}
  {close kind : Kind}

theorem places_pure (h : P a) (hlisted : (listed a).Sublist before) :
    Places all most before listed P (pure a : Reader α) := by
  refine fun tokens _ _ ↦ ⟨List.suffix_rfl, fun b hb ↦ ?_⟩
  cases hb
  exact ⟨h, hlisted.append_right tokens⟩

theorem places_fail (cause : ParseError) :
    Places all most before listed P (fail cause : Reader α) :=
  fun _ _ _ ↦ ⟨List.suffix_rfl, fun _ ha ↦ by cases ha⟩

theorem places_bind (h : Places all most before listed P p)
    (hf : ∀ a, P a → Places all most (listed a) listed' R (f a)) :
    Places all most before listed' R (p >>= f) := by
  intro tokens hall hmost
  obtain ⟨hrest, hp⟩ := h tokens hall hmost
  cases houtcome : (p tokens).outcome with
  | error cause =>
    have hfails : (p >>= f) tokens = ⟨.error cause, (p tokens).dropped, (p tokens).rest⟩ := by
      rcases hread : p tokens with ⟨outcome, dropped, rest⟩
      obtain rfl : outcome = .error cause := by rw [← houtcome, hread]
      simp only [bind, andThen, hread]
    rw [hfails]
    exact ⟨hrest, fun b hb ↦ by cases hb⟩
  | ok a =>
    obtain ⟨ha, hlisted⟩ := hp a houtcome
    obtain ⟨hrest', hf⟩ :=
      hf a ha (p tokens).rest (hrest.trans hall) (hrest.length_le.trans hmost)
    rw [rest_bind houtcome, outcome_bind houtcome]
    refine ⟨hrest'.trans hrest, fun b hb ↦ ?_⟩
    obtain ⟨hb, hlisted'⟩ := hf b hb
    exact ⟨hb, hlisted'.trans hlisted⟩

theorem Places.mono {most' : Nat} (h : Places all most before listed P p) (hmost : most' ≤ most) :
    Places all most' before listed P p :=
  fun tokens hall hle ↦ h tokens hall (hle.trans hmost)

/-- What is listed may stand behind other tokens. -/
theorem Places.behind (h : Places all most [] listed P p) (before : List Token) :
    Places all most before (fun a ↦ before ++ listed a) P p := by
  intro tokens hall hmost
  obtain ⟨hrest, hp⟩ := h tokens hall hmost
  refine ⟨hrest, fun a ha ↦ ?_⟩
  obtain ⟨ha, hlisted⟩ := hp a ha
  rw [List.append_assoc]
  exact ⟨ha, hlisted.append_left before⟩

/-- Tokens that are read need not be listed. -/
theorem Places.skip (h : Places all most [] listed P p) (before : List Token) :
    Places all most before (fun _ ↦ before) P p := by
  intro tokens hall hmost
  obtain ⟨hrest, hp⟩ := h tokens hall hmost
  exact ⟨hrest, fun a ha ↦ ⟨(hp a ha).1, hrest.sublist.append_left before⟩⟩

theorem places_peek : Places all most before (fun _ ↦ before) (fun _ ↦ True) peek :=
  fun _ _ _ ↦ ⟨List.suffix_rfl, fun _ _ ↦ ⟨trivial, List.Sublist.refl _⟩⟩

theorem places_expect (hk : kind ≠ .eof) :
    Places all most [] (fun token ↦ [token]) (fun token ↦ token ∈ all ∧ token.kind = kind)
      (expect kind) := by
  intro tokens hall hmost
  rw [expect, peek_bind]
  split
  · next hkind =>
    have hcons := cons_of_front hk hkind
    refine ⟨List.tail_suffix tokens, fun token htoken ↦ ?_⟩
    cases htoken
    refine ⟨⟨hall.subset ?_, hkind⟩, ?_⟩
    · rw [hcons]
      exact List.mem_cons_self ..
    · rw [hcons]
      exact List.Sublist.refl _
  · exact places_fail _ tokens hall hmost

/-- What is read behind a token is read from all that begins with it. -/
theorem Places.taken {token : Token} {others : List Token}
    (h : Places all most (before ++ [token]) listed P p) (hall : token :: others <:+ all)
    (hmost : others.length ≤ most) :
    (p others).rest <:+ token :: others ∧ ∀ a, (p others).outcome = .ok a →
      P a ∧ (listed a ++ (p others).rest).Sublist (before ++ token :: others) := by
  obtain ⟨hrest, hp⟩ := h others ((List.suffix_cons ..).trans hall) hmost
  refine ⟨hrest.trans (List.suffix_cons ..), fun a ha ↦ ?_⟩
  obtain ⟨ha, hlisted⟩ := hp a ha
  rw [List.append_assoc, List.singleton_append] at hlisted
  exact ⟨ha, hlisted⟩

/-- A token is read, in front of what gives up at the end. -/
theorem places_next_bind {f : Token → Reader β} {cause : ParseError} (hend : f .eof = fail cause)
    (hf : ∀ token ∈ all, Places all most (before ++ [token]) listed' R (f token)) :
    Places all (most + 1) before listed' R (next >>= f) := by
  intro tokens hall hmost
  rw [next_bind]
  cases tokens with
  | nil =>
    rw [show ([] : List Token).head?.getD .eof = .eof from rfl, hend]
    exact places_fail cause [] hall hmost
  | cons token others =>
    exact (hf token (hall.subset (List.mem_cons_self ..))).taken hall (Nat.le_of_succ_le_succ hmost)

theorem places_accept : Places all most before (fun _ ↦ before) (fun _ ↦ True) (accept kind) := by
  intro tokens _ _
  rw [accept, peek_bind]
  split
  · refine ⟨List.tail_suffix tokens, fun taken _ ↦ ⟨trivial, ?_⟩⟩
    exact (List.tail_sublist tokens).append_left before
  · exact ⟨List.suffix_rfl, fun taken _ ↦ ⟨trivial, List.Sublist.refl _⟩⟩

theorem places_attempt (h : Places all most [] listed P p) :
    Places all most [] (fun found ↦ found.toList.flatMap listed) (fun found ↦ ∀ a ∈ found, P a)
      (attempt p) := by
  intro tokens hall hmost
  obtain ⟨hrest, hp⟩ := h tokens hall hmost
  rw [attempt]
  rcases hread : p tokens with ⟨cause | a, dropped, rest⟩
  · rw [hread] at hrest
    refine ⟨hrest, fun found hfound ↦ ?_⟩
    cases hfound
    refine ⟨?_, hrest.sublist⟩
    rintro _ ⟨⟩
  · rw [hread] at hrest hp
    refine ⟨hrest, fun found hfound ↦ ?_⟩
    cases hfound
    obtain ⟨ha, hlisted⟩ := hp a rfl
    refine ⟨?_, by simpa using hlisted⟩
    rintro _ ⟨⟩
    exact ha

section Lists

variable (h : Places all most [] listed P p)

include h

theorem places_commaItems (bound : Nat) :
    Places all most [] (·.flatMap listed) (fun as ↦ ∀ a ∈ as, P a) (commaItems p bound) := by
  induction bound with
  | zero => exact places_pure (fun _ ha ↦ by cases ha) (List.Sublist.refl _)
  | succ bound ih =>
    refine places_bind places_accept fun taken _ ↦ ?_
    split
    · refine places_bind h fun a ha ↦ places_bind (ih.behind _) fun as has ↦ ?_
      exact places_pure (List.forall_mem_cons.mpr ⟨ha, has⟩) (List.Sublist.refl _)
    · exact places_pure (fun _ ha ↦ by cases ha) (List.Sublist.refl _)

theorem places_listUntil (hclose : close ≠ .eof) (bound : Nat) :
    Places all most [] (·.flatMap listed) (fun as ↦ ∀ a ∈ as, P a) (listUntil close p bound) := by
  refine places_bind places_accept fun taken _ ↦ ?_
  split
  · exact places_pure (fun _ ha ↦ by cases ha) (List.Sublist.refl _)
  · refine places_bind h fun a ha ↦ ?_
    refine places_bind ((places_commaItems h bound).behind _) fun as has ↦ ?_
    refine places_bind ((places_expect hclose).skip _) fun _ _ ↦ ?_
    exact places_pure (List.forall_mem_cons.mpr ⟨ha, has⟩) (List.Sublist.refl _)

end Lists

theorem places_statementsUntil {P : Node → Prop} {statement : Reader Node}
    (h : Places all most [] Node.tokens P statement) (bound : Nat) :
    Places all most [] nodesTokens (fun nodes ↦ ∀ node ∈ nodes, P node)
      (statementsUntil close statement bound) := by
  induction bound with
  | zero => exact places_pure (fun _ hn ↦ by cases hn) (List.Sublist.refl _)
  | succ bound ih =>
    refine places_bind places_peek fun token _ ↦ ?_
    dsimp only
    split
    · exact places_pure (fun _ hn ↦ by cases hn) (List.Sublist.refl _)
    · refine places_bind (places_attempt h) fun first hfirst ↦ ?_
      refine places_bind (ih.behind _) fun others hothers ↦ places_pure (fun node hn ↦ ?_) ?_
      · rcases List.mem_append.mp hn with hn | hn
        · exact hfirst node (Option.mem_toList.mp hn)
        · exact hothers node hn
      · rw [nodesTokens_eq, nodesTokens_eq, List.flatMap_append]

end Places

section Forms

variable {all : List Token} {most : Nat}

/-- What is read as a name. -/
def IsName (all : List Token) (node : Node) : Prop :=
  node.AllFaithful all ∧ ∃ name, node = .ident name name.literal

theorem isName_ident {token : Token} (htoken : token ∈ all) (hk : token.kind = .ident) :
    IsName all (.ident token token.literal) := by
  refine ⟨?_, token, rfl⟩
  exact Node.allFaithful_of_documented ⟨hk, rfl⟩ htoken rfl rfl fun _ h ↦ by cases h

theorem places_binder : Places all most [] Node.tokens (IsName all) binder :=
  places_bind (places_expect (by decide)) fun _ htoken ↦
    places_pure (isName_ident htoken.1 htoken.2) (List.Sublist.refl _)

theorem places_parameter : Places all most [] Node.tokens (IsName all) parameter := by
  refine (places_next_bind rfl fun token htoken ↦ ?_).mono (Nat.le_succ most)
  split
  · next hk => exact places_pure (isName_ident htoken hk) (List.Sublist.refl _)
  · exact places_fail _

theorem places_integer {token : Token} (htoken : token ∈ all) (hk : token.kind = .int) :
    Places all most [token] Node.tokens (Node.AllFaithful all) (integer token) := by
  rw [integer]
  split
  · next hmax =>
    refine places_pure ?_ (List.Sublist.refl _)
    exact Node.allFaithful_of_documented ⟨hk, rfl, by omega, by omega⟩ htoken rfl rfl
      fun _ h ↦ by cases h
  · exact places_fail _

variable {expr : Precedence → Reader Node} {bound : Nat}
  (h : ∀ precedence, Places all most [] Node.tokens (Node.AllFaithful all) (expr precedence))

include h

theorem places_grouped (token : Token) :
    Places all most [token] Node.tokens (Node.AllFaithful all) (grouped expr) := by
  refine places_bind ((h _).behind _) fun inner hinner ↦ ?_
  refine places_bind ((places_expect (by decide)).skip _) fun _ _ ↦ places_pure hinner ?_
  exact List.sublist_cons_self ..

theorem places_hashPair : Places all most [] (fun pair ↦ pair.1.tokens ++ pair.2.tokens)
    (fun pair ↦ pair.1.AllFaithful all ∧ pair.2.AllFaithful all) (hashPair expr) := by
  refine places_bind (h _) fun key hkey ↦ ?_
  refine places_bind ((places_expect (by decide)).skip _) fun _ _ ↦ ?_
  refine places_bind ((h _).behind _) fun value hvalue ↦ ?_
  exact places_pure ⟨hkey, hvalue⟩ (List.Sublist.refl _)

theorem places_prefixOp {token : Token} (htoken : token ∈ all)
    (hk : token.kind = .bang ∨ token.kind = .minus) :
    Places all most [token] Node.tokens (Node.AllFaithful all)
      (do return .prefixOp token token.literal (← expr .unary)) := by
  refine places_bind ((h _).behind _) fun operand hoperand ↦ places_pure ?_ (List.Sublist.refl _)
  exact Node.allFaithful_of_documented ⟨hk, rfl⟩ htoken rfl rfl
    (List.forall_mem_singleton.mpr hoperand)

theorem places_array {token : Token} (htoken : token ∈ all) (hk : token.kind = .lbracket) :
    Places all most [token] Node.tokens (Node.AllFaithful all)
      (do return .array token (← listUntil .rbracket (expr .lowest) bound)) := by
  refine places_bind ((places_listUntil (h _) (by decide) bound).behind _) fun elements hall ↦ ?_
  refine places_pure (Node.allFaithful_of_documented hk htoken rfl rfl hall) ?_
  rw [Node.tokens, nodesTokens_eq]
  exact List.Sublist.refl _

theorem places_hash {token : Token} (htoken : token ∈ all) (hk : token.kind = .lbrace) :
    Places all most [token] Node.tokens (Node.AllFaithful all)
      (do return .hash token (← listUntil .rbrace (hashPair expr) bound)) := by
  refine places_bind ((places_listUntil (places_hashPair h) (by decide) bound).behind _)
    fun pairs hpairs ↦ places_pure ?_ ?_
  · refine Node.allFaithful_of_documented hk htoken rfl rfl fun child hchild ↦ ?_
    obtain ⟨pair, hpair, hchild⟩ := List.mem_flatMap.mp hchild
    rcases List.mem_pair.mp hchild with rfl | rfl
    · exact (hpairs pair hpair).1
    · exact (hpairs pair hpair).2
  · rw [Node.tokens, pairsTokens_eq]
    exact List.Sublist.refl _

theorem places_call {left : Node} {token : Token} (hleft : left.AllFaithful all)
    (htoken : token ∈ all) (hk : token.kind = .lparen) :
    Places all most (left.tokens ++ [token]) Node.tokens (Node.AllFaithful all)
      (do return .call token left (← listUntil .rparen (expr .lowest) bound)) := by
  refine places_bind ((places_listUntil (h _) (by decide) bound).behind _) fun args hargs ↦ ?_
  refine places_pure ?_ ?_
  · exact Node.allFaithful_of_documented hk htoken rfl rfl (List.forall_mem_cons.mpr ⟨hleft, hargs⟩)
  · rw [Node.tokens, nodesTokens_eq, List.append_assoc]
    exact List.Sublist.refl _

theorem places_index {left : Node} {token : Token} (hleft : left.AllFaithful all)
    (htoken : token ∈ all) (hk : token.kind = .lbracket) :
    Places all most (left.tokens ++ [token]) Node.tokens (Node.AllFaithful all)
      (do
        let key ← expr .lowest
        let _ ← expect .rbracket
        return .index token left key) := by
  refine places_bind ((h _).behind _) fun key hkey ↦ ?_
  refine places_bind ((places_expect (by decide)).skip _) fun _ _ ↦ places_pure ?_ ?_
  · exact Node.allFaithful_of_documented hk htoken rfl rfl
      (List.forall_mem_cons.mpr ⟨hleft, List.forall_mem_singleton.mpr hkey⟩)
  · rw [Node.tokens, List.append_assoc]
    exact List.Sublist.refl _

theorem places_infixOp {left : Node} {token : Token} {tier : Tier} (hleft : left.AllFaithful all)
    (htoken : token ∈ all) (hk : token.kind ∈ tier.operators) (precedence : Precedence) :
    Places all most (left.tokens ++ [token]) Node.tokens (Node.AllFaithful all)
      (do return .infixOp token left token.literal (← expr precedence)) := by
  refine places_bind ((h _).behind _) fun right hright ↦ places_pure ?_ ?_
  · exact Node.allFaithful_of_documented ⟨⟨tier, hk⟩, rfl⟩ htoken rfl rfl
      (List.forall_mem_cons.mpr ⟨hleft, List.forall_mem_singleton.mpr hright⟩)
  · rw [Node.tokens, List.append_assoc]
    exact List.Sublist.refl _

theorem places_continuation {left : Node} {token : Token} {precedence : Precedence}
    (hleft : left.AllFaithful all) (htoken : token ∈ all)
    (hbinds : precedence.level < (Precedence.ofKind token.kind).level) :
    Places all most (left.tokens ++ [token]) Node.tokens (Node.AllFaithful all)
      (continuation expr bound left token) := by
  rw [continuation]
  split
  case h_1 hk => exact places_call h hleft htoken hk
  case h_2 hk => exact places_index h hleft htoken hk
  case h_3 hp hb =>
    obtain ⟨tier, _, hop, _⟩ := ((Kind.bracket_or_operator hbinds).resolve_left hp).resolve_left hb
    exact places_infixOp h hleft htoken hop _

theorem places_continuations (precedence : Precedence) (count : Nat) {left : Node}
    (hleft : left.AllFaithful all) :
    Places all (most + 1) left.tokens Node.tokens (Node.AllFaithful all)
      (continuations expr bound precedence count left) := by
  induction count generalizing left with
  | zero => exact places_pure hleft (List.Sublist.refl _)
  | succ count ih =>
    intro tokens hall hmost
    rw [continuations, peek_bind]
    split
    · next hbinds =>
      cases tokens with
      | nil => exact absurd hbinds (Nat.not_lt.mpr (by cases precedence <;> decide))
      | cons token others =>
        rw [next_bind]
        have hlonger : Places all most (left.tokens ++ [token]) Node.tokens (Node.AllFaithful all)
            (continuation expr bound left token >>= continuations expr bound precedence count) :=
          places_bind (places_continuation h hleft (hall.subset (List.mem_cons_self ..)) hbinds)
            fun _ hlonger ↦ (ih hlonger).mono (Nat.le_succ most)
        exact hlonger.taken hall (Nat.le_of_succ_le_succ hmost)
    · exact places_pure hleft (List.Sublist.refl _) tokens hall hmost

section Blocks

variable (hstatement : Places all most [] Node.tokens (Node.AllFaithful all) (statement expr))

include hstatement

omit h in
theorem places_block :
    Places all most [] Node.tokens (Node.AllFaithful all) (block expr bound) := by
  refine places_bind (places_expect (by decide)) fun brace hbrace ↦ ?_
  refine places_bind ((places_statementsUntil hstatement bound).behind _) fun nodes hnodes ↦ ?_
  refine places_bind places_accept fun _ _ ↦ places_pure ?_ (List.Sublist.refl _)
  exact Node.allFaithful_of_documented hbrace.2 hbrace.1 rfl rfl hnodes

theorem places_conditional {token : Token} (htoken : token ∈ all) (hk : token.kind = .kwIf) :
    Places all most [token] Node.tokens (Node.AllFaithful all) (conditional expr bound token) := by
  refine places_bind ((places_expect (by decide)).skip _) fun _ _ ↦ ?_
  refine places_bind ((h _).behind _) fun condition hcondition ↦ ?_
  refine places_bind ((places_expect (by decide)).skip _) fun _ _ ↦ ?_
  refine places_bind ((places_block hstatement).behind _) fun consequence hconsequence ↦ ?_
  refine places_bind places_accept fun taken _ ↦ ?_
  split
  · refine places_bind ((places_block hstatement).behind _) fun alternative halternative ↦ ?_
    refine places_pure ?_ ?_
    · exact Node.allFaithful_of_documented hk htoken rfl rfl (List.forall_mem_cons.mpr
        ⟨hcondition, List.forall_mem_cons.mpr
          ⟨hconsequence, List.forall_mem_singleton.mpr halternative⟩⟩)
    · simp [Node.tokens, alternativeTokens]
  · refine places_pure ?_ ?_
    · exact Node.allFaithful_of_documented hk htoken rfl rfl
        (List.forall_mem_cons.mpr ⟨hcondition, List.forall_mem_singleton.mpr hconsequence⟩)
    · simp [Node.tokens, alternativeTokens]

omit h in
theorem places_function {token : Token} (htoken : token ∈ all) (hk : token.kind = .kwFn) :
    Places all most [token] Node.tokens (Node.AllFaithful all) (function expr bound token) := by
  refine places_bind ((places_expect (by decide)).skip _) fun _ _ ↦ ?_
  refine places_bind ((places_listUntil places_parameter (by decide) bound).behind _)
    fun params hparams ↦ ?_
  refine places_bind ((places_block hstatement).behind _) fun body hbody ↦ places_pure ?_ ?_
  · exact Node.allFaithful_of_documented ⟨hk, fun param hp ↦ (hparams param hp).2⟩ htoken rfl rfl
      (List.forall_mem_cons.mpr ⟨hbody, fun param hp ↦ (hparams param hp).1⟩)
  · rw [Node.tokens, nodesTokens_eq]
    simp

theorem places_operand :
    Places all (most + 1) [] Node.tokens (Node.AllFaithful all) (operand expr bound) := by
  refine places_next_bind rfl fun token htoken ↦ ?_
  rw [List.nil_append]
  have hplain : ∀ {node : Node}, node.Documented → node.token? = some token →
      node.opening? = none → node.children = [] → node.AllFaithful all := fun hd hs ho hc ↦
    Node.allFaithful_of_documented hd htoken hs ho (hc ▸ fun _ h ↦ by cases h)
  split
  case h_1 hk => exact places_pure (hplain ⟨hk, rfl⟩ rfl rfl rfl) (List.Sublist.refl _)
  case h_2 hk => exact places_integer htoken hk
  case h_3 hk => exact places_pure (hplain ⟨hk, rfl⟩ rfl rfl rfl) (List.Sublist.refl _)
  case h_4 hk => exact places_pure (hplain hk rfl rfl rfl) (List.Sublist.refl _)
  case h_5 hk => exact places_pure (hplain hk rfl rfl rfl) (List.Sublist.refl _)
  case h_6 hk => exact places_prefixOp h htoken (.inl hk)
  case h_7 hk => exact places_prefixOp h htoken (.inr hk)
  case h_8 => exact places_grouped h token
  case h_9 hk => exact places_conditional h hstatement htoken hk
  case h_10 hk => exact places_function hstatement htoken hk
  case h_11 hk => exact places_array h htoken hk
  case h_12 hk => exact places_hash h htoken hk
  case h_13 => exact places_fail _

end Blocks

section Statements

/-- The node is as its first token demands. What is left open is where it is read. -/
structure Begun (all : List Token) (token : Token) (node : Node) : Prop where
  documented : node.Documented
  stored : node.token? = some token
  children : ∀ child ∈ node.children, child.AllFaithful all

theorem places_letStmt {token : Token} (hk : token.kind = .kwLet) :
    Places all most [token] Node.tokens (Begun all token) (letStmt expr token) := by
  refine places_bind (places_binder.behind _) fun name hname ↦ ?_
  refine places_bind ((places_expect (by decide)).skip _) fun _ _ ↦ ?_
  refine places_bind ((h _).behind _) fun value hvalue ↦ ?_
  refine places_bind places_accept fun _ _ ↦ places_pure ⟨⟨hk, hname.2⟩, rfl, ?_⟩ ?_
  · exact List.forall_mem_cons.mpr ⟨hname.1, List.forall_mem_singleton.mpr hvalue⟩
  · rw [Node.tokens, List.append_assoc, List.singleton_append]

theorem places_returnStmt {token : Token} (hk : token.kind = .kwReturn) :
    Places all most [token] Node.tokens (Begun all token) (returnStmt expr token) := by
  refine places_bind ((h _).behind _) fun value hvalue ↦ places_bind places_accept fun _ _ ↦ ?_
  exact places_pure ⟨hk, rfl, List.forall_mem_singleton.mpr hvalue⟩ (List.Sublist.refl _)

theorem places_exprStmt (token : Token) :
    Places all most [] Node.tokens (Begun all token) (exprStmt expr token) := by
  refine places_bind (h _) fun value hvalue ↦ places_bind places_accept fun _ _ ↦ ?_
  exact places_pure ⟨trivial, rfl, List.forall_mem_singleton.mpr hvalue⟩ (List.Sublist.refl _)

end Statements

end Forms

section Bound

variable {all : List Token} {bound : Nat}

theorem statement_cases (expr : Precedence → Reader Node) (token : Token) (others : List Token) :
    token.kind = .kwLet ∧ statement expr (token :: others) = letStmt expr token others ∨
      token.kind = .kwReturn ∧ statement expr (token :: others) = returnStmt expr token others ∨
        statement expr (token :: others) = exprStmt expr token (token :: others) := by
  obtain ⟨kind, literal⟩ := token
  cases kind with
  | kwLet => exact .inl ⟨rfl, rfl⟩
  | kwReturn => exact .inr (.inl ⟨rfl, rfl⟩)
  | _ => exact .inr (.inr rfl)

theorem statement_of_end (bound : Nat) :
    statement (Reader.expr bound) [] = ⟨.error (.noExpression .eof), [], []⟩ := by
  have hexpr : Reader.expr bound .lowest [] = ⟨.error (.noExpression .eof), [], []⟩ :=
    Recorder.reader_expr_of_end rfl bound .lowest
  change ((Reader.expr bound .lowest >>= _) [] : Reading Node) = _
  simp only [bind, andThen, hexpr]

/-- The bound of a reader of statements does not matter where it is no less than the number of
tokens. -/
theorem statement_bound {tokens : List Token} (h : tokens.length ≤ bound) :
    statement (Reader.expr bound) tokens = statement (Reader.expr tokens.length) tokens := by
  have hrecords : ∀ {bound}, tokens.length ≤ bound → Recorder.Records tokens.length 1 0
      (Recorder.statement (Recorder.expr (tokens.length + 1))) (statement (Reader.expr bound)) :=
    fun hbound ↦ Recorder.records_statement fun precedence ↦
      Recorder.records_expr (Nat.lt_succ_self _) hbound precedence
  exact (Alike.of_records (hrecords h) (hrecords le_rfl) tokens le_rfl).1

theorem places_statement (h : ∀ precedence, Places all bound [] Node.tokens (Node.AllFaithful all)
    (Reader.expr bound precedence)) :
    Places all bound [] Node.tokens (Node.AllFaithful all) (statement (Reader.expr bound)) := by
  intro tokens hall hbound
  cases tokens with
  | nil =>
    rw [statement_of_end]
    exact ⟨List.suffix_rfl, fun _ hnode ↦ by cases hnode⟩
  | cons token others =>
    have hmost : others.length ≤ bound := Nat.le_of_succ_le hbound
    let reading := statement (Reader.expr bound) (token :: others)
    obtain ⟨hrest, hform⟩ : reading.rest <:+ token :: others ∧
        ∀ node, reading.outcome = .ok node → Begun all token node ∧
          (node.tokens ++ reading.rest).Sublist ([] ++ token :: others) := by
      unfold reading
      rcases statement_cases (Reader.expr bound) token others with ⟨hk, he⟩ | ⟨hk, he⟩ | he <;>
        rw [he]
      · exact (places_letStmt h hk).taken hall hmost
      · exact (places_returnStmt h hk).taken hall hmost
      · exact places_exprStmt h token _ hall hbound
    refine ⟨hrest, fun node hnode ↦ ?_⟩
    obtain ⟨⟨hdocumented, hstored, hchildren⟩, hlisted⟩ := hform node hnode
    refine ⟨Node.Faithful.allFaithful ⟨hdocumented, ?_, fun opening hopening ↦ ?_⟩ hchildren,
      hlisted⟩
    · exact ⟨token, hall.subset (List.mem_cons_self ..), hstored⟩
    · obtain rfl : token = opening := by
        cases node <;> cases hopening <;> exact Option.some.inj hstored.symm
      rw [statement_bound hbound] at hnode
      exact ⟨token :: others, hall, rfl, hnode⟩

theorem places_expr (bound : Nat) (precedence : Precedence) :
    Places all bound [] Node.tokens (Node.AllFaithful all) (Reader.expr bound precedence) := by
  induction bound generalizing precedence with
  | zero =>
    intro tokens hall hbound
    obtain rfl := List.length_eq_zero_iff.mp (Nat.le_zero.mp hbound)
    rw [Recorder.reader_expr_of_end rfl]
    exact ⟨List.suffix_rfl, fun _ hnode ↦ by cases hnode⟩
  | succ bound ih =>
    refine places_bind (places_operand ih (places_statement ih)) fun left hleft ↦ ?_
    exact places_continuations ih precedence bound hleft

end Bound

end Reader

/-- The program is faithful to the tokens of its text. -/
structure Parsed.Faithful (parsed : Parsed) (all : List Token) : Prop where
  nodes : ∀ node ∈ parsed.program.inner, node.Faithful all
  order : parsed.program.tokens.Sublist all

/-- What reading keeps of a text, with or without errors, is faithful to its tokens. Every node at
any depth stores a token of the text, of the kind that goes with its form, and holds what this token
says; a statement is what reading one gives where its token stands, which is thus its first one. The
tokens of all nodes but the expression statements stand in the text in the order of the nodes, each
in a place of its own. -/
theorem parse_faithful (text : String) : (parse text).Faithful (Token.ofText text) := by
  let all := Token.ofText text
  have hplaces : Reader.Places all all.length [] nodesTokens
      (fun nodes ↦ ∀ node ∈ nodes, node.AllFaithful all)
      (Reader.statementsUntil .eof (Reader.statement (Reader.expr all.length)) all.length) :=
    Reader.places_statementsUntil (Reader.places_statement (Reader.places_expr _)) _
  obtain ⟨nodes, hok⟩ := Reader.statementsUntil_isOk .eof
    (Reader.statement (Reader.expr all.length)) all.length all
  obtain ⟨-, hread⟩ := hplaces all List.suffix_rfl le_rfl
  obtain ⟨hfaithful, hlisted⟩ := hread nodes hok
  have hprogram : (parse text).program = .program nodes := by
    change Node.program (Except.toOption (Reading.outcome _) |>.getD []) = _
    rw [hok]
    rfl
  rw [List.nil_append] at hlisted
  refine ⟨fun node hnode ↦ ?_, ?_⟩
  · rw [hprogram, Node.inner_eq] at hnode
    obtain ⟨statement, hstatement, hnode⟩ := List.mem_flatMap.mp hnode
    exact hfaithful statement hstatement node hnode
  · rw [hprogram]
    exact (List.sublist_append_left ..).trans hlisted

end MonkeyLang
