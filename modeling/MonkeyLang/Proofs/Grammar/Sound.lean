import MonkeyLang.Proofs.Grammar.Compose
import MonkeyLang.Proofs.Reading.Forms

/-!
Whatever is read without loss is derived by the grammar. An operator met while reading goes on from
an expression of its own tier or a tighter one, because tighter operators have all been taken.
-/

namespace MonkeyLang

open Reader

/-- No token in the list stands for the end. -/
def NoEnd (tokens : List Token) : Prop := ∀ token ∈ tokens, token.kind ≠ .eof

theorem NoEnd.of_suffix {tokens rest : List Token} (h : NoEnd tokens) (hs : rest <:+ tokens) :
    NoEnd rest := fun token ht ↦ h token (hs.subset ht)

theorem NoEnd.eq_nil {tokens : List Token} (h : NoEnd tokens) (hf : front tokens = .eof) :
    tokens = [] := by
  cases tokens with
  | nil => rfl
  | cons token others => exact absurd hf (h token (List.mem_cons_self ..))

/-- The tier whose expressions are read at a strength. -/
def Precedence.tier : Precedence → Tier
  | lowest => .equality
  | equality => .comparison
  | comparison => .sum
  | sum => .product
  | _ => .unary

theorem Precedence.tier_strength {tier inner : Tier} (h : tier.tighter? = some inner) :
    tier.strength.tier = inner := by
  cases tier <;> cases h <;> rfl

theorem Precedence.strength_tier_le {precedence : Precedence} {tier : Tier}
    (h : precedence.level < tier.strength.level) :
    precedence.tier.strength.level ≤ tier.strength.level := by
  cases precedence <;> cases tier <;> revert h <;> decide

/-- A token that makes an expression longer is a bracket or an operator of some tier. -/
theorem Kind.bracket_or_operator {kind : Kind} {precedence : Precedence}
    (h : precedence.level < (Precedence.ofKind kind).level) :
    kind = .lparen ∨ kind = .lbracket ∨
      ∃ tier inner, kind ∈ Tier.operators tier ∧ tier.tighter? = some inner := by
  have hone : 1 ≤ precedence.level := by cases precedence <;> decide
  cases kind with
  | lparen => exact .inl rfl
  | lbracket => exact .inr (.inl rfl)
  | eq | notEq => exact .inr (.inr ⟨.equality, .comparison, by decide, rfl⟩)
  | lt | gt => exact .inr (.inr ⟨.comparison, .sum, by decide, rfl⟩)
  | plus | minus => exact .inr (.inr ⟨.sum, .product, by decide, rfl⟩)
  | asterisk | slash => exact .inr (.inr ⟨.product, .unary, by decide, rfl⟩)
  | _ => exact absurd h (Nat.not_lt.mpr hone)

/-- The tokens up to `mid` spell `left`, and reading at the given strength can go on from there:
with a bracket behind an atom and its trailers, or else with an operator of the tier or a looser
one. -/
def Grown (precedence : Precedence) (left : Node) (tokens mid : List Token) : Prop :=
  (∃ atom start, Nonempty (Derivation (.atom atom) tokens start) ∧
    Nonempty (Derivation (.trailers atom left) start mid)) ∨
  ∃ tier, Nonempty (Derivation (.expr tier left) tokens mid) ∧
    precedence.level < tier.strength.level ∧
    (Precedence.ofKind (front mid)).level ≤ tier.strength.level ∧
    (Precedence.ofKind (front mid)).level < Precedence.call.level

/-- What the reader of expressions takes with a bound, the grammar derives. -/
def ExprSound (bound : Nat) : Prop :=
  ∀ {tokens rest : List Token} {node : Node} {precedence : Precedence},
    tokens.length ≤ bound → NoEnd tokens → precedence.level < Precedence.call.level →
    (Reader.expr bound precedence).Reads tokens node rest →
    Nonempty (Derivation (.expr precedence.tier node) tokens rest) ∧
      (Precedence.ofKind (front rest)).level ≤ precedence.level

namespace Grown

variable {tokens mid rest : List Token} {left node : Node} {precedence : Precedence}

theorem suffix (h : Grown precedence left tokens mid) : mid <:+ tokens := by
  rcases h with ⟨_, _, ⟨d⟩, ⟨e⟩⟩ | ⟨_, ⟨d⟩, _⟩
  · exact e.suffix.trans d.suffix
  · exact d.suffix

/-- All that is grown at a strength is an expression of a tier above the strength. -/
theorem exists_expr (h : Grown precedence left tokens mid)
    (hp : precedence.level < Precedence.call.level) :
    ∃ tier, Nonempty (Derivation (.expr tier left) tokens mid) ∧
      precedence.level < tier.strength.level ∧
      ((Precedence.ofKind (front mid)).level < Precedence.call.level →
        (Precedence.ofKind (front mid)).level ≤ tier.strength.level) := by
  rcases h with ⟨_, _, ⟨d⟩, ⟨e⟩⟩ | ⟨tier, ⟨d⟩, hlt, hle, _⟩
  · exact ⟨.unary, ⟨.trailed d e⟩, hp, Nat.le_of_lt⟩
  · exact ⟨tier, ⟨d⟩, hlt, fun _ ↦ hle⟩

/-- Brackets make atoms with their trailers longer. -/
theorem bracket (h : Grown precedence left tokens mid)
    (hf : Precedence.call.level ≤ (Precedence.ofKind (front mid)).level)
    (d : Derivation (.trailers left node) mid rest) : Grown precedence node tokens rest := by
  rcases h with ⟨atom, start, hd, ⟨e⟩⟩ | ⟨_, _, _, _, hlt⟩
  · exact .inl ⟨atom, start, hd, ⟨e.trailersAppend d⟩⟩
  · omega

/-- Operators make expressions of their tier longer. -/
theorem operator {op : Token} {right : Node} {tier inner : Tier}
    (h : Grown precedence left tokens (op :: mid)) (hp : precedence.level < Precedence.call.level)
    (hop : op.kind ∈ tier.operators) (hi : tier.tighter? = some inner)
    (hlt : precedence.level < tier.strength.level) (e : Derivation (.expr inner right) mid rest)
    (hle : (Precedence.ofKind (front rest)).level ≤ tier.strength.level) :
    Grown precedence (.infixOp op left op.literal right) tokens rest := by
  have hcall : tier.strength.level < Precedence.call.level := by
    cases tier <;> first | decide | cases hi
  -- a looser operator on the left would already have taken this one into its right operand
  obtain ⟨tier', ⟨d⟩, _, himp⟩ := h.exists_expr hp
  rw [front_cons, Tier.ofKind_eq hop] at himp
  obtain ⟨d'⟩ := d.loosen (himp hcall)
  exact .inr ⟨tier, d'.infix_right hop hi e, hlt, hle, hle.trans_lt hcall⟩

end Grown

section Sound

variable {bound count : Nat} {tokens mid rest : List Token} {left node : Node}
  {precedence : Precedence}

theorem expr_lowest (h : ExprSound bound) (hbound : tokens.length ≤ bound) (hend : NoEnd tokens)
    (hr : (Reader.expr bound .lowest).Reads tokens node rest) :
    Nonempty (Derivation (.expr .equality node) tokens rest) ∧
      (Precedence.ofKind (front rest)).level ≤ Precedence.lowest.level :=
  h hbound hend (by decide) hr

theorem others_sound {α : Type} {item : Reader α} {f : α → Item} {sort : Item.Sort}
    (hitem : ∀ {tokens rest a}, tokens.length ≤ bound → NoEnd tokens → item.Reads tokens a rest →
      Nonempty (Derivation (.item sort (f a)) tokens rest))
    {bracket : Bracket} {as : List α} {close : Token} (hbound : tokens.length ≤ bound)
    (hend : NoEnd tokens) (hclose : close.kind = bracket.close)
    (h : (commaItems item count).Reads tokens as (close :: rest)) :
    Nonempty (Derivation (.others sort bracket (as.map f)) tokens rest) := by
  induction count generalizing tokens as with
  | zero =>
    obtain ⟨rfl, rfl⟩ := reads_commaItems_zero.mp h
    exact ⟨.noOthers hclose⟩
  | succ count ih =>
    rcases reads_commaItems_succ.mp h with
      ⟨rfl, _, rfl⟩ | ⟨comma, tail, a, as, mid, rfl, hcomma, ha, has, rfl⟩
    · exact ⟨.noOthers hclose⟩
    · rw [List.length_cons] at hbound
      have hend' := hend.of_suffix (List.suffix_cons ..)
      obtain ⟨d⟩ := hitem (Nat.le_of_succ_le hbound) hend' ha
      have hlen := d.suffix.length_le
      obtain ⟨e⟩ := ih (by omega) (hend'.of_suffix d.suffix) has
      exact ⟨.others hcomma d e⟩

theorem list_sound {α : Type} {item : Reader α} {f : α → Item} {sort : Item.Sort}
    (bracket : Bracket)
    (hitem : ∀ {tokens rest a}, tokens.length ≤ bound → NoEnd tokens → item.Reads tokens a rest →
      Nonempty (Derivation (.item sort (f a)) tokens rest))
    {as : List α} (hbound : tokens.length ≤ bound) (hend : NoEnd tokens)
    (h : (listUntil bracket.close item count).Reads tokens as rest) :
    Nonempty (Derivation (.list sort bracket (as.map f)) tokens rest) := by
  rcases (reads_listUntil bracket.close_ne_eof).mp h with
    ⟨rfl, close, rfl, hclose⟩ | ⟨_, a, as, mid, close, ha, has, hclose, rfl⟩
  · exact ⟨.emptyList hclose⟩
  · obtain ⟨d⟩ := hitem hbound hend ha
    obtain ⟨e⟩ := others_sound hitem (d.suffix.length_le.trans hbound) (hend.of_suffix d.suffix)
      hclose has
    exact ⟨.list d e⟩

theorem values_sound (hexpr : ExprSound bound) (bracket : Bracket) {nodes : List Node}
    (hbound : tokens.length ≤ bound) (hend : NoEnd tokens)
    (h : (listUntil bracket.close (Reader.expr bound .lowest) count).Reads tokens nodes rest) :
    Nonempty (Derivation (.list .value bracket (nodes.map .value)) tokens rest) := by
  refine list_sound bracket (fun hb he hr ↦ ?_) hbound hend h
  obtain ⟨⟨d⟩, _⟩ := expr_lowest hexpr hb he hr
  exact ⟨.value d⟩

theorem ending_sound {taken : Bool}
    (hle : (Precedence.ofKind (front mid)).level ≤ Precedence.lowest.level)
    (h : (accept .semicolon).Reads mid taken rest) : Nonempty (Derivation .ending mid rest) := by
  rcases (reads_accept (by decide)).mp h with ⟨_, token, rfl, hk⟩ | ⟨_, _, rfl⟩
  · exact ⟨.semicolon hk⟩
  · refine ⟨.noSemicolon ?_⟩
    revert hle
    generalize front mid = kind
    cases kind <;> decide

theorem statement_sound (hexpr : ExprSound bound) (hbound : tokens.length ≤ bound)
    (hend : NoEnd tokens) (h : (Reader.statement (Reader.expr bound)).Reads tokens node rest) :
    Nonempty (Derivation (.statement node) tokens rest) := by
  by_cases hl : front tokens = .kwLet
  · obtain ⟨start, tail, rfl⟩ := List.exists_cons_of_ne_nil
      (show tokens ≠ [] by rintro rfl; cases hl)
    rw [front_cons] at hl
    rw [reads_statement_let hl, reads_letStmt] at h
    obtain ⟨name, sign, others, value, mid, taken, rfl, hn, hs, he, ha, rfl⟩ := h
    simp only [List.length_cons] at hbound
    have hend' := hend.of_suffix (show others <:+ _ from ⟨[_, _, _], rfl⟩)
    obtain ⟨⟨d⟩, hle⟩ := expr_lowest hexpr (by omega) hend' he
    obtain ⟨e⟩ := ending_sound hle ha
    exact ⟨.letStmt hl hn hs d e⟩
  · by_cases hr : front tokens = .kwReturn
    · obtain ⟨start, others, rfl⟩ := List.exists_cons_of_ne_nil
        (show tokens ≠ [] by rintro rfl; cases hr)
      rw [front_cons] at hr
      rw [reads_statement_return hr, reads_returnStmt] at h
      obtain ⟨value, mid, taken, he, ha, rfl⟩ := h
      rw [List.length_cons] at hbound
      obtain ⟨⟨d⟩, hle⟩ :=
        expr_lowest hexpr (by omega) (hend.of_suffix (List.suffix_cons ..)) he
      obtain ⟨e⟩ := ending_sound hle ha
      exact ⟨.returnStmt hr d e⟩
    · rw [reads_statement_expr hl hr, reads_exprStmt] at h
      obtain ⟨value, mid, taken, he, ha, rfl⟩ := h
      obtain ⟨⟨d⟩, hle⟩ := expr_lowest hexpr hbound hend he
      obtain ⟨e⟩ := ending_sound hle ha
      cases tokens with
      | nil => exact absurd d.length_le (by simp [Phrase.least])
      | cons start others => exact ⟨.exprStmt d e⟩

theorem statements_sound (hexpr : ExprSound bound) {close : Kind} {nodes : List Node}
    (hbound : tokens.length ≤ bound) (hend : NoEnd tokens) (hcount : tokens.length ≤ count)
    (h : (statementsUntil close (Reader.statement (Reader.expr bound)) count).Reads tokens nodes
      rest) :
    Nonempty (Derivation (.statements nodes) tokens rest) ∧
      (front rest = .eof ∨ front rest = close) := by
  induction count generalizing tokens nodes with
  | zero =>
    obtain rfl := List.length_eq_zero_iff.mp (Nat.le_zero.mp hcount)
    obtain ⟨rfl, rfl⟩ := reads_pure.mp h
    exact ⟨⟨.noStatements⟩, .inl rfl⟩
  | succ count ih =>
    rcases reads_statementsUntil_succ.mp h with
      ⟨hk, rfl, rfl⟩ | ⟨_, node, nodes, mid, hs, hs', rfl⟩
    · exact ⟨⟨.noStatements⟩, hk⟩
    · obtain ⟨d⟩ := statement_sound hexpr hbound hend hs
      have hlen := d.length_le
      simp only [Phrase.least] at hlen
      obtain ⟨⟨e⟩, hk⟩ := ih (by omega) (hend.of_suffix d.suffix) (by omega) hs'
      exact ⟨⟨.statements d e⟩, hk⟩

theorem block_sound (hexpr : ExprSound bound) (hbound : tokens.length ≤ bound)
    (hend : NoEnd tokens) (h : (Reader.block (Reader.expr bound) bound).Reads tokens node rest) :
    Nonempty (Derivation (.block node) tokens rest) := by
  obtain ⟨brace, others, nodes, mid, taken, rfl, hb, hs, ha, rfl⟩ := reads_block.mp h
  rw [List.length_cons] at hbound
  have hend' := hend.of_suffix (List.suffix_cons ..)
  obtain ⟨⟨d⟩, hk⟩ := statements_sound hexpr (by omega) hend' (by omega) hs
  rcases (reads_accept (by decide)).mp ha with ⟨_, close, rfl, hc⟩ | ⟨_, hne, rfl⟩
  · exact ⟨.closedBlock hb hc d⟩
  · obtain rfl := (hend'.of_suffix d.suffix).eq_nil (hk.resolve_right hne)
    exact ⟨.openBlock hb d⟩

theorem conditional_sound (hexpr : ExprSound bound) {start : Token} (hs : start.kind = .kwIf)
    (hbound : tokens.length ≤ bound) (hend : NoEnd tokens)
    (h : (conditional (Reader.expr bound) bound start).Reads tokens node rest) :
    Nonempty (Derivation (.atom node) (start :: tokens) rest) := by
  obtain ⟨paren, others, condition, close, mid, consequence, tail, rfl, hp, he, hc, hb, halt⟩ :=
    reads_conditional.mp h
  rw [List.length_cons] at hbound
  have hend' := hend.of_suffix (List.suffix_cons ..)
  obtain ⟨⟨d⟩, _⟩ := expr_lowest hexpr (by omega) hend' he
  have hlen := d.length_le
  simp only [Phrase.least, List.length_cons] at hlen
  have hend'' := (hend'.of_suffix d.suffix).of_suffix (List.suffix_cons ..)
  obtain ⟨e⟩ := block_sound hexpr (by omega) hend'' hb
  rcases halt with ⟨_, rfl, rfl⟩ | ⟨word, others', alternative, rfl, hw, hb', rfl⟩
  · exact ⟨.cond hs hp hc d e⟩
  · have hlen' := e.length_le
    simp only [Phrase.least, List.length_cons] at hlen'
    obtain ⟨f⟩ := block_sound hexpr (by omega)
      ((hend''.of_suffix e.suffix).of_suffix (List.suffix_cons ..)) hb'
    exact ⟨.condElse hs hp hc hw d e f⟩

theorem function_sound (hexpr : ExprSound bound) {start : Token} (hs : start.kind = .kwFn)
    (hbound : tokens.length ≤ bound) (hend : NoEnd tokens)
    (h : (function (Reader.expr bound) bound start).Reads tokens node rest) :
    Nonempty (Derivation (.atom node) (start :: tokens) rest) := by
  obtain ⟨paren, others, params, mid, body, rfl, hp, hl, hb, rfl⟩ := reads_function.mp h
  rw [List.length_cons] at hbound
  have hend' := hend.of_suffix (List.suffix_cons ..)
  have hitem : ∀ {tokens rest node}, tokens.length ≤ bound → NoEnd tokens →
      parameter.Reads tokens node rest →
      Nonempty (Derivation (.item .parameter (.parameter node)) tokens rest) := by
    intro tokens rest node _ _ hr
    obtain ⟨name, rfl, hk, rfl⟩ := reads_parameter.mp hr
    exact ⟨.parameter hk⟩
  obtain ⟨d⟩ := list_sound .round hitem (by omega) hend' hl
  have hlen := d.length_le
  simp only [Phrase.least] at hlen
  obtain ⟨e⟩ := block_sound hexpr (by omega) (hend'.of_suffix d.suffix) hb
  exact ⟨.fn hs hp d e⟩

theorem pairs_sound (hexpr : ExprSound bound) {pairs : List (Node × Node)}
    (hbound : tokens.length ≤ bound) (hend : NoEnd tokens)
    (h : (listUntil .rbrace (hashPair (Reader.expr bound)) count).Reads tokens pairs rest) :
    Nonempty (Derivation (.list .pair .curly (pairs.map .ofPair)) tokens rest) := by
  refine list_sound .curly (fun hb he hr ↦ ?_) hbound hend h
  obtain ⟨colon, mid, hk, hc, hv⟩ := reads_hashPair.mp hr
  obtain ⟨⟨d⟩, _⟩ := expr_lowest hexpr hb he hk
  have hlen := d.length_le
  simp only [Phrase.least, List.length_cons] at hlen
  obtain ⟨⟨e⟩, _⟩ := expr_lowest hexpr (by omega)
    ((he.of_suffix d.suffix).of_suffix (List.suffix_cons ..)) hv
  exact ⟨.pair hc d e⟩

theorem operand_sound (hexpr : ExprSound bound) (hbound : tokens.length ≤ bound + 1)
    (hend : NoEnd tokens) (hp : precedence.level < Precedence.call.level)
    (h : (operand (Reader.expr bound) bound).Reads tokens node mid) :
    Grown precedence node tokens mid := by
  have atom : Nonempty (Derivation (.atom node) tokens mid) → Grown precedence node tokens mid :=
    fun hd ↦ .inl ⟨node, mid, hd, ⟨.trailersEnd⟩⟩
  simp only [operand, reads_bind, reads_next] at h
  obtain ⟨_, _, ⟨rfl, rfl⟩, h⟩ := h
  cases tokens with
  | nil => exact absurd h reads_fail
  | cons token tokens =>
    simp only [List.head?_cons, Option.getD_some, List.tail_cons] at h
    rw [List.length_cons] at hbound
    have hend' := hend.of_suffix (List.suffix_cons ..)
    split at h
    case h_1 hk =>
      obtain ⟨rfl, rfl⟩ := reads_pure.mp h
      exact atom ⟨.ident hk⟩
    case h_2 hk =>
      rw [integer] at h
      split at h
      · next hmax =>
        obtain ⟨rfl, rfl⟩ := reads_pure.mp h
        exact atom ⟨.int hk hmax⟩
      · exact absurd h reads_fail
    case h_3 hk =>
      obtain ⟨rfl, rfl⟩ := reads_pure.mp h
      exact atom ⟨.str hk⟩
    case h_4 hk =>
      obtain ⟨rfl, rfl⟩ := reads_pure.mp h
      exact atom ⟨.boolTrue hk⟩
    case h_5 hk =>
      obtain ⟨rfl, rfl⟩ := reads_pure.mp h
      exact atom ⟨.boolFalse hk⟩
    case h_6 hk | h_7 hk =>
      obtain ⟨right, _, hr, hpure⟩ := reads_bind.mp h
      obtain ⟨rfl, rfl⟩ := reads_pure.mp hpure
      obtain ⟨⟨d⟩, hle⟩ := hexpr (by omega) hend' (by decide) hr
      refine .inr ⟨.unary, ⟨.prefixOp (by simp [hk]) d⟩, hp, ?_, Nat.lt_succ_of_le hle⟩
      exact hle.trans (by decide)
    case h_8 hk =>
      obtain ⟨close, hr, hc⟩ := reads_grouped.mp h
      obtain ⟨⟨d⟩, _⟩ := expr_lowest hexpr (by omega) hend' hr
      exact atom ⟨.group hk hc d⟩
    case h_9 hk => exact atom (conditional_sound hexpr hk (by omega) hend' h)
    case h_10 hk => exact atom (function_sound hexpr hk (by omega) hend' h)
    case h_11 hk =>
      obtain ⟨nodes, _, hl, hpure⟩ := reads_bind.mp h
      obtain ⟨rfl, rfl⟩ := reads_pure.mp hpure
      obtain ⟨d⟩ := values_sound hexpr .square (by omega) hend' hl
      exact atom ⟨.array hk d⟩
    case h_12 hk =>
      obtain ⟨pairs, _, hl, hpure⟩ := reads_bind.mp h
      obtain ⟨rfl, rfl⟩ := reads_pure.mp hpure
      obtain ⟨d⟩ := pairs_sound hexpr (by omega) hend' hl
      exact atom ⟨.hash hk d⟩
    case h_13 => exact absurd h reads_fail

theorem continuation_sound (hexpr : ExprSound bound) {token : Token}
    (hbound : mid.length ≤ bound) (hend : NoEnd mid)
    (hp : precedence.level < Precedence.call.level)
    (hlt : precedence.level < (Precedence.ofKind token.kind).level)
    (hgrown : Grown precedence left tokens (token :: mid))
    (h : (continuation (Reader.expr bound) bound left token).Reads mid node rest) :
    Grown precedence node tokens rest ∧ rest <:+ mid := by
  rcases Kind.bracket_or_operator hlt with hk | hk | ⟨tier, inner, hop, hi⟩
  · obtain ⟨args, hl, rfl⟩ := (reads_continuation_call hk).mp h
    obtain ⟨d⟩ := values_sound hexpr .round hbound hend hl
    exact ⟨hgrown.bracket (by rw [front_cons, hk]; decide) (.call hk d .trailersEnd), d.suffix⟩
  · obtain ⟨key, close, hr, hc, rfl⟩ := (reads_continuation_index hk).mp h
    obtain ⟨⟨d⟩, _⟩ := expr_lowest hexpr hbound hend hr
    exact ⟨hgrown.bracket (by rw [front_cons, hk]; decide) (.index hk hc d .trailersEnd),
      (List.suffix_cons ..).trans d.suffix⟩
  · have hne := Tier.ne_bracket hop
    obtain ⟨right, hr, rfl⟩ := (reads_continuation_operator hne.1 hne.2).mp h
    rw [Tier.ofKind_eq hop] at hlt hr
    have hcall : tier.strength.level < Precedence.call.level := by
      cases tier <;> first | decide | cases hi
    obtain ⟨⟨d⟩, hle⟩ := hexpr hbound hend hcall hr
    rw [Precedence.tier_strength hi] at d
    exact ⟨hgrown.operator hp hop hi hlt d hle, d.suffix⟩

theorem continuations_sound (hexpr : ExprSound bound) (hbound : mid.length ≤ bound)
    (hcount : mid.length ≤ count) (hend : NoEnd mid)
    (hp : precedence.level < Precedence.call.level) (hgrown : Grown precedence left tokens mid)
    (h : (continuations (Reader.expr bound) bound precedence count left).Reads mid node rest) :
    Grown precedence node tokens rest ∧
      (Precedence.ofKind (front rest)).level ≤ precedence.level := by
  induction count generalizing mid left with
  | zero =>
    obtain rfl := List.length_eq_zero_iff.mp (Nat.le_zero.mp hcount)
    obtain ⟨rfl, rfl⟩ := reads_pure.mp h
    exact ⟨hgrown, by cases precedence <;> decide⟩
  | succ count ih =>
    simp only [continuations, reads_bind, reads_peek] at h
    obtain ⟨_, _, ⟨rfl, rfl⟩, h⟩ := h
    split at h
    · next hlt =>
      simp only [reads_bind, reads_next] at h
      obtain ⟨_, _, ⟨rfl, rfl⟩, longer, mid', hc, hcs⟩ := h
      cases mid with
      | nil => exact absurd hlt (Nat.not_lt.mpr (by cases precedence <;> decide))
      | cons token others =>
        simp only [List.head?_cons, Option.getD_some, List.tail_cons] at hlt hc
        simp only [List.length_cons] at hbound hcount
        have hend' := hend.of_suffix (List.suffix_cons ..)
        obtain ⟨hgrown', hs⟩ := continuation_sound hexpr (by omega) hend' hp hlt hgrown hc
        have hlen := hs.length_le
        exact ih (by omega) (by omega) (hend'.of_suffix hs) hgrown' hcs
    · next hle =>
      obtain ⟨rfl, rfl⟩ := reads_pure.mp h
      exact ⟨hgrown, Nat.not_lt.mp hle⟩

end Sound

theorem expr_sound (bound : Nat) : ExprSound bound := by
  induction bound with
  | zero =>
    intro tokens rest node precedence _ _ _ h
    simp only [Reader.expr, reads_bind] at h
    obtain ⟨_, _, _, hf⟩ := h
    exact absurd hf reads_fail
  | succ bound ih =>
    intro tokens rest node precedence hbound hend hp h
    obtain ⟨left, mid, hleft, hcs⟩ := reads_bind.mp h
    have hgrown := operand_sound ih hbound hend hp hleft
    have hlen : mid.length ≤ bound := by
      obtain ⟨_, ⟨d⟩, _⟩ := hgrown.exists_expr hp
      have hd := d.length_le
      simp only [Phrase.least] at hd
      omega
    obtain ⟨hgrown', hle⟩ :=
      continuations_sound ih hlen hlen (hend.of_suffix hgrown.suffix) hp hgrown hcs
    obtain ⟨tier, ⟨d⟩, hlt, _⟩ := hgrown'.exists_expr hp
    exact ⟨d.loosen (Precedence.strength_tier_le hlt), hle⟩

end MonkeyLang
