import MonkeyLang.Proofs.Grammar.Lookahead
import MonkeyLang.Proofs.Reading.Forms

/-!
Whatever the grammar derives is read. A derivation whose phrase is read to its end tells what the
readers take from the tokens, for all bounds that are at least the number of tokens.
-/

namespace MonkeyLang

open Reader

/-- The reader for the items of a list. -/
def Item.Sort.reader (expr : Precedence → Reader Node) : Item.Sort → Reader Item
  | value => Item.value <$> expr .lowest
  | parameter => Item.parameter <$> Reader.parameter
  | pair => Item.ofPair <$> hashPair expr

/-- Reading goes on from the expression `left` as it goes on from `node` behind some more tokens.
The bound on the number of steps is never met. -/
def Reader.Leads (bound : Nat) (precedence : Precedence) (left : Node) (tokens : List Token)
    (node : Node) (rest : List Token) : Prop :=
  ∀ count, tokens.length ≤ count → ∃ count', rest.length ≤ count' ∧ ∀ result final,
    (continuations (Reader.expr bound) bound precedence count' node).Reads rest result final →
    (continuations (Reader.expr bound) bound precedence count left).Reads tokens result final

namespace Phrase

/-- What the readers do with a phrase that stands in front of `rest`. -/
def Read : Phrase → List Token → List Token → Prop
  | program _, _, _ => True
  | statements nodes, tokens, rest => ∀ bound count close,
      tokens.length ≤ bound → tokens.length ≤ count → close = .eof ∨ close = .rbrace →
      front rest = .eof ∨ front rest = close →
      (statementsUntil close (Reader.statement (Reader.expr bound)) count).Reads tokens nodes rest
  | statement node, tokens, rest => ∀ bound, tokens.length ≤ bound →
      (Reader.statement (Reader.expr bound)).Reads tokens node rest
  | ending, tokens, rest => ∃ taken, (accept .semicolon).Reads tokens taken rest
  | block node, tokens, rest => ∀ bound, tokens.length ≤ bound →
      (Reader.block (Reader.expr bound) bound).Reads tokens node rest
  | expr tier node, tokens, rest => ∀ bound precedence, tokens.length ≤ bound + 1 →
      precedence.level < tier.strength.level → ∃ count, rest.length ≤ count ∧ ∀ result final,
      (continuations (Reader.expr bound) bound precedence count node).Reads rest result final →
      (Reader.expr (bound + 1) precedence).Reads tokens result final
  | chain tier left node, tokens, rest => ∀ bound precedence, tokens.length ≤ bound →
      precedence.level < tier.strength.level → Leads bound precedence left tokens node rest
  | trailers left node, tokens, rest => ∀ bound precedence, tokens.length ≤ bound →
      precedence.level < Precedence.call.level → Leads bound precedence left tokens node rest
  | atom node, tokens, rest => ∀ bound, tokens.length ≤ bound + 1 →
      (operand (Reader.expr bound) bound).Reads tokens node rest
  | list sort bracket items, tokens, rest => ∀ bound, tokens.length ≤ bound →
      (listUntil bracket.close (sort.reader (Reader.expr bound)) bound).Reads tokens items rest
  | others sort bracket items, tokens, rest => ∀ bound count,
      tokens.length ≤ bound → tokens.length ≤ count → ∃ token, token.kind = bracket.close ∧
      (commaItems (sort.reader (Reader.expr bound)) count).Reads tokens items (token :: rest)
  | item sort element, tokens, rest => ∀ bound, tokens.length ≤ bound →
      (sort.reader (Reader.expr bound)).Reads tokens element rest

/-- The readers take the phrase wherever what stands behind it lets it end there. -/
def Taken (phrase : Phrase) (tokens rest : List Token) : Prop :=
  phrase.Ends rest → phrase.Read tokens rest

end Phrase

namespace Reader

variable {tokens mid rest final : List Token} {left node result : Node} {bound count : Nat}
  {precedence : Precedence}

theorem Leads.refl : Leads bound precedence node rest node rest :=
  fun count hcount ↦ ⟨count, hcount, fun _ _ h ↦ h⟩

theorem Leads.trans {other : Node} (h : Leads bound precedence left tokens other mid)
    (h' : Leads bound precedence other mid node rest) :
    Leads bound precedence left tokens node rest := by
  intro count hcount
  obtain ⟨count', hcount', hstep⟩ := h count hcount
  obtain ⟨count'', hcount'', hstep'⟩ := h' count' hcount'
  exact ⟨count'', hcount'', fun result final hr ↦ hstep result final (hstep' result final hr)⟩

theorem Leads.step {token : Token} (hlen : mid.length ≤ tokens.length)
    (hlt : precedence.level < (Precedence.ofKind token.kind).level)
    (h : (continuation (expr bound) bound left token).Reads tokens node mid) :
    Leads bound precedence left (token :: tokens) node mid := by
  intro count hcount
  cases count with
  | zero => simp at hcount
  | succ count =>
    rw [List.length_cons] at hcount
    refine ⟨count, by omega, fun result final hr ↦ ?_⟩
    simp only [continuations, reads_bind, reads_peek]
    refine ⟨token, _, ⟨rfl, rfl⟩, ?_⟩
    rw [if_pos hlt]
    simp only [reads_bind, reads_next]
    exact ⟨token, tokens, ⟨rfl, rfl⟩, node, mid, h, hr⟩

/-- Reading does not go on at a token that binds no more strongly. -/
theorem reads_continuations_of_le (h : (Precedence.ofKind (front rest)).level ≤ precedence.level) :
    (continuations (expr bound) bound precedence count node).Reads rest node rest := by
  cases count with
  | zero => exact reads_pure.mpr ⟨rfl, rfl⟩
  | succ count =>
    simp only [continuations, reads_bind, reads_peek]
    refine ⟨_, rest, ⟨rfl, rfl⟩, ?_⟩
    rw [if_neg (by exact Nat.not_lt.mpr h)]
    exact reads_pure.mpr ⟨rfl, rfl⟩

end Reader

namespace Phrase.Read

variable {tokens rest : List Token} {tier : Tier} {node : Node}

/-- An expression is read by itself where the token behind it binds no more strongly. -/
theorem expr_reads (h : (Phrase.expr tier node).Read tokens rest) (hne : tokens ≠ [])
    {bound : Nat} (hbound : tokens.length ≤ bound) {precedence : Precedence}
    (hlt : precedence.level < tier.strength.level)
    (hle : (Precedence.ofKind (front rest)).level ≤ precedence.level) :
    (Reader.expr bound precedence).Reads tokens node rest := by
  cases bound with
  | zero => exact absurd (List.length_eq_zero_iff.mp (Nat.le_zero.mp hbound)) hne
  | succ bound =>
    obtain ⟨count, _, hread⟩ := h bound precedence hbound hlt
    exact hread node rest (reads_continuations_of_le hle)

end Phrase.Read

namespace Derivation

variable {phrase : Phrase} {tokens mid rest : List Token} {tier inner : Tier}
  {left node expr : Node}

theorem reads_expr_of (d : Derivation (.expr tier node) tokens rest)
    (hread : (Phrase.expr tier node).Read tokens rest) {bound : Nat}
    (hbound : tokens.length ≤ bound) {precedence : Precedence}
    (hlt : precedence.level < tier.strength.level)
    (hle : (Precedence.ofKind (front rest)).level ≤ precedence.level) :
    (Reader.expr bound precedence).Reads tokens node rest := by
  have hlen := d.length_le
  refine hread.expr_reads ?_ hbound hlt hle
  rintro rfl
  simp [Phrase.least] at hlen

/-- An expression of the loosest tier is read to its end. -/
theorem reads_lowest_of (d : Derivation (.expr .equality node) tokens rest)
    (ih : (Phrase.expr .equality node).Taken tokens rest) (h : Phrase.Halts .equality rest)
    {bound : Nat} (hbound : tokens.length ≤ bound) :
    (Reader.expr bound .lowest).Reads tokens node rest :=
  d.reads_expr_of (ih h) hbound (by decide) (Tier.le_below h.2)

theorem reads_closed_of {close : Token} {kind : Kind}
    (d : Derivation (.expr .equality node) tokens (close :: rest))
    (ih : (Phrase.expr .equality node).Taken tokens (close :: rest)) (hc : close.kind = kind)
    (hmem : kind ∈ Kind.closing) {bound : Nat} (hbound : tokens.length ≤ bound) :
    (Reader.expr bound .lowest).Reads tokens node (close :: rest) :=
  d.reads_lowest_of ih (Phrase.halts_of_kind hc hmem) hbound

theorem accept_of_ending (d : Derivation .ending mid rest) (h : front rest ≠ .semicolon) :
    ∃ taken, (accept .semicolon).Reads mid taken rest := by
  cases d with
  | semicolon hk => exact ⟨true, (reads_accept (by decide)).mpr (.inl ⟨rfl, _, rfl, hk⟩)⟩
  | noSemicolon => exact ⟨false, (reads_accept (by decide)).mpr (.inr ⟨rfl, h, rfl⟩)⟩

theorem reads_list_of {α : Type} {f : α → Item} (hf : Function.Injective f) {sort : Item.Sort}
    {bracket : Bracket} {as : List α} (ih : (Phrase.list sort bracket (as.map f)).Taken tokens rest)
    {bound : Nat} {item : Reader α} (hitem : sort.reader (Reader.expr bound) = f <$> item)
    (hbound : tokens.length ≤ bound) :
    (listUntil bracket.close item bound).Reads tokens as rest := by
  have hlist := ih trivial bound hbound
  rw [hitem, reads_listUntil_map bracket.close_ne_eof] at hlist
  obtain ⟨as', has, hmap⟩ := hlist
  rwa [← List.map_injective_iff.mpr hf hmap]

section Statements

variable {start name sign brace close : Token} {value : Node} {nodes : List Node}

theorem taken_statements (d : Derivation (.statement node) tokens mid)
    (e : Derivation (.statements nodes) mid rest) (ih : (Phrase.statement node).Taken tokens mid)
    (ih' : (Phrase.statements nodes).Taken mid rest) :
    (Phrase.statements (node :: nodes)).Taken tokens rest := by
  intro h bound count close hbound hcount hclose hfront
  have hlen := d.length_le
  have hlen' := e.length_le
  have hbegins := d.begins
  simp only [Phrase.least] at hlen hlen'
  cases count with
  | zero => omega
  | succ count =>
    refine reads_statementsUntil_succ.mpr (.inr ⟨?_, node, nodes, mid, ?_, ?_, rfl⟩)
    · rintro (hk | hk)
      · simp [Phrase.Begins, Kind.opening, hk] at hbegins
      · rcases hclose with rfl | rfl <;> simp [Phrase.Begins, Kind.opening, hk] at hbegins
    · exact ih (e.ends_of_statements h) bound hbound
    · exact ih' h bound count close (by omega) (by omega) hclose hfront

theorem taken_letStmt (hs : start.kind = .kwLet) (hn : name.kind = .ident)
    (ha : sign.kind = .assign) (d : Derivation (.expr .equality value) tokens mid)
    (e : Derivation .ending mid rest)
    (ih : (Phrase.expr .equality value).Taken tokens mid) :
    (Phrase.statement (.letStmt start (.ident name name.literal) value)).Taken
      (start :: name :: sign :: tokens) rest := by
  intro h bound hbound
  simp only [List.length_cons] at hbound
  have hhalts := e.halts_of_ending h.1
  obtain ⟨taken, haccept⟩ := e.accept_of_ending h.2
  rw [reads_statement_let hs, reads_letStmt]
  exact ⟨name, sign, tokens, value, mid, taken, rfl, hn, ha,
    d.reads_lowest_of ih hhalts (by omega), haccept, rfl⟩

theorem taken_returnStmt (hs : start.kind = .kwReturn)
    (d : Derivation (.expr .equality value) tokens mid) (e : Derivation .ending mid rest)
    (ih : (Phrase.expr .equality value).Taken tokens mid) :
    (Phrase.statement (.returnStmt start value)).Taken (start :: tokens) rest := by
  intro h bound hbound
  simp only [List.length_cons] at hbound
  have hhalts := e.halts_of_ending h.1
  obtain ⟨taken, haccept⟩ := e.accept_of_ending h.2
  rw [reads_statement_return hs, reads_returnStmt]
  exact ⟨value, mid, taken, d.reads_lowest_of ih hhalts (by omega), haccept, rfl⟩

theorem taken_exprStmt (d : Derivation (.expr .equality value) (start :: tokens) mid)
    (e : Derivation .ending mid rest)
    (ih : (Phrase.expr .equality value).Taken (start :: tokens) mid) :
    (Phrase.statement (.exprStmt start value)).Taken (start :: tokens) rest := by
  intro h bound hbound
  have hhalts := e.halts_of_ending h.1
  have hbegins := d.begins
  obtain ⟨taken, haccept⟩ := e.accept_of_ending h.2
  rw [reads_statement_expr, reads_exprStmt]
  · exact ⟨value, mid, taken, d.reads_lowest_of ih hhalts hbound, haccept, rfl⟩
  · intro hk; simp [Phrase.Begins, Kind.opening, hk] at hbegins
  · intro hk; simp [Phrase.Begins, Kind.opening, hk] at hbegins

theorem taken_closedBlock (hb : brace.kind = .lbrace) (hc : close.kind = .rbrace)
    (ih : (Phrase.statements nodes).Taken tokens (close :: rest)) :
    (Phrase.block (.block brace nodes)).Taken (brace :: tokens) rest := by
  intro h bound hbound
  simp only [List.length_cons] at hbound
  refine reads_block.mpr ⟨brace, tokens, nodes, close :: rest, true, rfl, hb, ?_, ?_, rfl⟩
  · exact ih (.inr hc) bound bound .rbrace (by omega) (by omega) (.inr rfl) (.inr hc)
  · exact (reads_accept (by decide)).mpr (.inl ⟨rfl, close, rfl, hc⟩)

theorem taken_openBlock (hb : brace.kind = .lbrace)
    (ih : (Phrase.statements nodes).Taken tokens []) :
    (Phrase.block (.block brace nodes)).Taken (brace :: tokens) [] := by
  intro h bound hbound
  simp only [List.length_cons] at hbound
  refine reads_block.mpr ⟨brace, tokens, nodes, [], false, rfl, hb, ?_, ?_, rfl⟩
  · exact ih (.inl rfl) bound bound .rbrace (by omega) (by omega) (.inr rfl) (.inl rfl)
  · exact (reads_accept (by decide)).mpr (.inr ⟨rfl, by decide, rfl⟩)

end Statements

section Expressions

variable {op paren square close : Token} {first right atom callee collection key : Node}
  {args : List Node}

theorem taken_chained (hi : tier.tighter? = some inner)
    (d : Derivation (.expr inner first) tokens mid)
    (e : Derivation (.chain tier first expr) mid rest)
    (ih : (Phrase.expr inner first).Taken tokens mid)
    (ih' : (Phrase.chain tier first expr).Taken mid rest) :
    (Phrase.expr tier expr).Taken tokens rest := by
  intro h bound precedence hbound hlt
  have hlen := d.length_le
  simp only [Phrase.least] at hlen
  obtain ⟨count, hcount, hread⟩ :=
    ih (e.halts_of_chain hi h) bound precedence hbound (hlt.trans (Tier.strength_lt hi))
  obtain ⟨count', hcount', hread'⟩ := ih' h bound precedence (by omega) hlt count hcount
  exact ⟨count', hcount', fun result final hr ↦ hread result final (hread' result final hr)⟩

theorem taken_chain (hop : op.kind ∈ tier.operators) (hi : tier.tighter? = some inner)
    (d : Derivation (.expr inner right) tokens mid)
    (e : Derivation (.chain tier (.infixOp op left op.literal right) expr) mid rest)
    (ih : (Phrase.expr inner right).Taken tokens mid)
    (ih' : (Phrase.chain tier (.infixOp op left op.literal right) expr).Taken mid rest) :
    (Phrase.chain tier left expr).Taken (op :: tokens) rest := by
  intro h bound precedence hbound hlt
  simp only [List.length_cons] at hbound
  have hlen := d.length_le
  simp only [Phrase.least] at hlen
  have hkind := Tier.ofKind_eq hop
  have hhalts := e.halts_of_chain hi h
  have hright : (Reader.expr bound tier.strength).Reads tokens right mid := by
    refine d.reads_expr_of (ih hhalts) (by omega) (Tier.strength_lt hi) ?_
    -- behind the operand stands the end of the chain or another operator of this very tier
    cases e with
    | chainEnd => exact h.2.le
    | chain hop' => rw [front_cons, Tier.ofKind_eq hop']
  have hne := Tier.ne_bracket hop
  refine (Leads.step (by omega) (by rw [hkind]; exact hlt) ?_).trans
    (ih' h bound precedence (by omega) hlt)
  exact (reads_continuation_operator hne.1 hne.2).mpr ⟨right, by rw [hkind]; exact hright, rfl⟩

theorem taken_prefixOp (hop : op.kind = .bang ∨ op.kind = .minus)
    (d : Derivation (.expr .unary expr) tokens rest)
    (ih : (Phrase.expr .unary expr).Taken tokens rest) :
    (Phrase.expr .unary (.prefixOp op op.literal expr)).Taken (op :: tokens) rest := by
  intro h bound precedence hbound hlt
  simp only [List.length_cons] at hbound
  have hlen := d.length_le
  simp only [Phrase.least] at hlen
  have hoperand : (Reader.expr bound .unary).Reads tokens expr rest :=
    d.reads_expr_of (ih h) (by omega) (by decide) (Nat.le_of_lt_succ h.2)
  refine ⟨bound, by omega, fun result final hr ↦ ?_⟩
  simp only [Reader.expr, operand, reads_bind, reads_next]
  refine ⟨_, rest, ⟨op, tokens, ⟨rfl, rfl⟩, ?_⟩, hr⟩
  rcases hop with hop | hop
  · simpa only [hop, reads_bind, reads_pure] using ⟨expr, rest, hoperand, rfl, rfl⟩
  · simpa only [hop, reads_bind, reads_pure] using ⟨expr, rest, hoperand, rfl, rfl⟩

theorem taken_trailed (d : Derivation (.atom atom) tokens mid)
    (e : Derivation (.trailers atom expr) mid rest) (ih : (Phrase.atom atom).Taken tokens mid)
    (ih' : (Phrase.trailers atom expr).Taken mid rest) :
    (Phrase.expr .unary expr).Taken tokens rest := by
  intro h bound precedence hbound hlt
  have hlen := d.length_le
  simp only [Phrase.least] at hlen
  have hatom := ih (e.front_of_trailers h.1) bound hbound
  obtain ⟨count, hcount, hread⟩ := ih' h bound precedence (by omega) hlt bound (by omega)
  refine ⟨count, hcount, fun result final hr ↦ ?_⟩
  exact reads_bind.mpr ⟨atom, mid, hatom, hread result final hr⟩

theorem taken_call (hp : paren.kind = .lparen)
    (d : Derivation (.list .value .round (args.map .value)) tokens mid)
    (ih : (Phrase.list .value .round (args.map .value)).Taken tokens mid)
    (ih' : (Phrase.trailers (.call paren callee args) expr).Taken mid rest) :
    (Phrase.trailers callee expr).Taken (paren :: tokens) rest := by
  intro h bound precedence hbound hlt
  simp only [List.length_cons] at hbound
  have hlen := d.length_le
  simp only [Phrase.least] at hlen
  have has := reads_list_of (fun _ _ ↦ Item.value.inj) ih rfl (show tokens.length ≤ bound by omega)
  refine (Leads.step (by omega) (by rw [hp]; exact hlt) ?_).trans
    (ih' h bound precedence (by omega) hlt)
  exact (reads_continuation_call hp).mpr ⟨args, has, rfl⟩

theorem taken_index (hb : square.kind = .lbracket) (hc : close.kind = .rbracket)
    (d : Derivation (.expr .equality key) tokens (close :: mid))
    (ih : (Phrase.expr .equality key).Taken tokens (close :: mid))
    (ih' : (Phrase.trailers (.index square collection key) expr).Taken mid rest) :
    (Phrase.trailers collection expr).Taken (square :: tokens) rest := by
  intro h bound precedence hbound hlt
  simp only [List.length_cons] at hbound
  have hlen := d.length_le
  simp only [Phrase.least, List.length_cons] at hlen
  have hkey := d.reads_closed_of ih hc (by decide) (show tokens.length ≤ bound by omega)
  refine (Leads.step (by omega) (by rw [hb]; exact hlt.trans (by decide)) ?_).trans
    (ih' h bound precedence (by omega) hlt)
  exact (reads_continuation_index hb).mpr ⟨key, close, hkey, hc, rfl⟩

end Expressions

section Atoms

variable {start paren square brace close word : Token} {tail : List Token}
  {condition consequence alternative body : Node} {params elements : List Node}
  {pairs : List (Node × Node)}

theorem taken_group (hp : paren.kind = .lparen) (hc : close.kind = .rparen)
    (d : Derivation (.expr .equality expr) tokens (close :: rest))
    (ih : (Phrase.expr .equality expr).Taken tokens (close :: rest)) :
    (Phrase.atom expr).Taken (paren :: tokens) rest := by
  intro h bound hbound
  simp only [List.length_cons] at hbound
  have hinner := d.reads_closed_of ih hc (by decide) (show tokens.length ≤ bound by omega)
  simp only [operand, reads_bind, reads_next]
  refine ⟨paren, tokens, ⟨rfl, rfl⟩, ?_⟩
  rw [hp]
  exact reads_grouped.mpr ⟨close, hinner, hc⟩

theorem taken_cond (hs : start.kind = .kwIf) (hp : paren.kind = .lparen) (hc : close.kind = .rparen)
    (d : Derivation (.expr .equality condition) tokens (close :: mid))
    (ih : (Phrase.expr .equality condition).Taken tokens (close :: mid))
    (ih' : (Phrase.block consequence).Taken mid rest) :
    (Phrase.atom (.cond start condition consequence none)).Taken
      (start :: paren :: tokens) rest := by
  intro h bound hbound
  simp only [List.length_cons] at hbound
  have hlen := d.length_le
  simp only [Phrase.least, List.length_cons] at hlen
  have htest := d.reads_closed_of ih hc (by decide) (show tokens.length ≤ bound by omega)
  simp only [operand, reads_bind, reads_next]
  refine ⟨start, paren :: tokens, ⟨rfl, rfl⟩, ?_⟩
  rw [hs]
  exact reads_conditional.mpr ⟨paren, tokens, condition, close, mid, consequence, rest, rfl, hp,
    htest, hc, ih' trivial bound (by omega), .inl ⟨h, rfl, rfl⟩⟩

theorem taken_condElse (hs : start.kind = .kwIf) (hp : paren.kind = .lparen)
    (hc : close.kind = .rparen) (hw : word.kind = .kwElse)
    (d : Derivation (.expr .equality condition) tokens (close :: mid))
    (e : Derivation (.block consequence) mid (word :: tail))
    (ih : (Phrase.expr .equality condition).Taken tokens (close :: mid))
    (ih' : (Phrase.block consequence).Taken mid (word :: tail))
    (ih'' : (Phrase.block alternative).Taken tail rest) :
    (Phrase.atom (.cond start condition consequence (some alternative))).Taken
      (start :: paren :: tokens) rest := by
  intro h bound hbound
  simp only [List.length_cons] at hbound
  have hlen := d.length_le
  have hlen' := e.length_le
  simp only [Phrase.least, List.length_cons] at hlen hlen'
  have htest := d.reads_closed_of ih hc (by decide) (show tokens.length ≤ bound by omega)
  simp only [operand, reads_bind, reads_next]
  refine ⟨start, paren :: tokens, ⟨rfl, rfl⟩, ?_⟩
  rw [hs]
  exact reads_conditional.mpr ⟨paren, tokens, condition, close, mid, consequence, word :: tail,
    rfl, hp, htest, hc, ih' trivial bound (by omega),
    .inr ⟨word, tail, alternative, rfl, hw, ih'' trivial bound (by omega), rfl⟩⟩

theorem taken_fn (hs : start.kind = .kwFn) (hp : paren.kind = .lparen)
    (d : Derivation (.list .parameter .round (params.map .parameter)) tokens mid)
    (ih : (Phrase.list .parameter .round (params.map .parameter)).Taken tokens mid)
    (ih' : (Phrase.block body).Taken mid rest) :
    (Phrase.atom (.fn start params body)).Taken (start :: paren :: tokens) rest := by
  intro h bound hbound
  simp only [List.length_cons] at hbound
  have hlen := d.length_le
  simp only [Phrase.least] at hlen
  have hps := reads_list_of (fun _ _ ↦ Item.parameter.inj) ih rfl
    (show tokens.length ≤ bound by omega)
  simp only [operand, reads_bind, reads_next]
  refine ⟨start, paren :: tokens, ⟨rfl, rfl⟩, ?_⟩
  rw [hs]
  exact reads_function.mpr
    ⟨paren, tokens, params, mid, body, rfl, hp, hps, ih' trivial bound (by omega), rfl⟩

theorem taken_array (hb : square.kind = .lbracket)
    (ih : (Phrase.list .value .square (elements.map .value)).Taken tokens rest) :
    (Phrase.atom (.array square elements)).Taken (square :: tokens) rest := by
  intro h bound hbound
  simp only [List.length_cons] at hbound
  have hes := reads_list_of (fun _ _ ↦ Item.value.inj) ih rfl (show tokens.length ≤ bound by omega)
  simp only [operand, reads_bind, reads_next]
  refine ⟨square, tokens, ⟨rfl, rfl⟩, ?_⟩
  rw [hb]
  exact reads_bind.mpr ⟨elements, rest, hes, reads_pure.mpr ⟨rfl, rfl⟩⟩

theorem taken_hash (hb : brace.kind = .lbrace)
    (ih : (Phrase.list .pair .curly (pairs.map .ofPair)).Taken tokens rest) :
    (Phrase.atom (.hash brace pairs)).Taken (brace :: tokens) rest := by
  intro h bound hbound
  simp only [List.length_cons] at hbound
  have hps := reads_list_of Item.ofPair_injective ih rfl (show tokens.length ≤ bound by omega)
  simp only [operand, reads_bind, reads_next]
  refine ⟨brace, tokens, ⟨rfl, rfl⟩, ?_⟩
  rw [hb]
  exact reads_bind.mpr ⟨pairs, rest, hps, reads_pure.mpr ⟨rfl, rfl⟩⟩

end Atoms

section Lists

variable {close comma colon : Token} {sort : Item.Sort} {bracket : Bracket} {item : Item}
  {items : List Item} {key value : Node}

theorem taken_list (d : Derivation (.item sort item) tokens mid)
    (e : Derivation (.others sort bracket items) mid rest)
    (ih : (Phrase.item sort item).Taken tokens mid)
    (ih' : (Phrase.others sort bracket items).Taken mid rest) :
    (Phrase.list sort bracket (item :: items)).Taken tokens rest := by
  intro h bound hbound
  have hlen := d.length_le
  simp only [Phrase.least] at hlen
  obtain ⟨token, hk, hitems⟩ := ih' trivial bound bound (by omega) (by omega)
  refine (reads_listUntil bracket.close_ne_eof).mpr (.inr ⟨?_, item, items, mid, token,
    ih e.ends_of_others bound hbound, hitems, hk, rfl⟩)
  intro hfront
  have hbegins := d.begins
  rw [Phrase.Begins, hfront] at hbegins
  cases bracket <;> simp [Bracket.close, Kind.opening] at hbegins

theorem taken_noOthers (hc : close.kind = bracket.close) :
    (Phrase.others sort bracket []).Taken (close :: rest) rest := by
  intro h bound count _ hcount
  refine ⟨close, hc, ?_⟩
  cases count with
  | zero => simp at hcount
  | succ count =>
    refine reads_commaItems_succ.mpr (.inl ⟨rfl, ?_, rfl⟩)
    rw [front_cons, hc]
    cases bracket <;> decide

theorem taken_others (hc : comma.kind = .comma) (d : Derivation (.item sort item) tokens mid)
    (e : Derivation (.others sort bracket items) mid rest)
    (ih : (Phrase.item sort item).Taken tokens mid)
    (ih' : (Phrase.others sort bracket items).Taken mid rest) :
    (Phrase.others sort bracket (item :: items)).Taken (comma :: tokens) rest := by
  intro h bound count hbound hcount
  simp only [List.length_cons] at hbound hcount
  have hlen := d.length_le
  simp only [Phrase.least] at hlen
  cases count with
  | zero => omega
  | succ count =>
    obtain ⟨token, hk, hitems⟩ := ih' trivial bound count (by omega) (by omega)
    exact ⟨token, hk, reads_commaItems_succ.mpr (.inr ⟨comma, tokens, item, items, mid, rfl, hc,
      ih e.ends_of_others bound (by omega), hitems, rfl⟩)⟩

theorem taken_pair (hc : colon.kind = .colon)
    (d : Derivation (.expr .equality key) tokens (colon :: mid))
    (e : Derivation (.expr .equality value) mid rest)
    (ih : (Phrase.expr .equality key).Taken tokens (colon :: mid))
    (ih' : (Phrase.expr .equality value).Taken mid rest) :
    (Phrase.item .pair (.pair key value)).Taken tokens rest := by
  intro h bound hbound
  have hlen := d.length_le
  simp only [Phrase.least, List.length_cons] at hlen
  have hkey := d.reads_closed_of ih hc (by decide) hbound
  have hvalue := e.reads_lowest_of ih' h (show mid.length ≤ bound by omega)
  exact reads_map.mpr ⟨(key, value), reads_hashPair.mpr ⟨colon, mid, hkey, hc, hvalue⟩, rfl⟩

end Lists

/-- Whatever is derived is read, if what stands behind it lets it end there. -/
theorem taken (d : Derivation phrase tokens rest) : phrase.Taken tokens rest := by
  induction d with
  | program =>
    intro h
    trivial
  | noStatements =>
    intro h bound count close _ hcount hclose hfront
    cases count with
    | zero => exact reads_pure.mpr ⟨rfl, rfl⟩
    | succ count => exact reads_statementsUntil_succ.mpr (.inl ⟨hfront, rfl, rfl⟩)
  | statements d e ih ih' => exact taken_statements d e ih ih'
  | letStmt hs hn ha d e ih => exact taken_letStmt hs hn ha d e ih
  | returnStmt hs d e ih => exact taken_returnStmt hs d e ih
  | exprStmt d e ih => exact taken_exprStmt d e ih
  | semicolon hk =>
    intro h
    exact ⟨true, (reads_accept (by decide)).mpr (.inl ⟨rfl, _, rfl, hk⟩)⟩
  | noSemicolon =>
    intro h
    exact ⟨false, (reads_accept (by decide)).mpr (.inr ⟨rfl, h, rfl⟩)⟩
  | closedBlock hb hc _ ih => exact taken_closedBlock hb hc ih
  | openBlock hb _ ih => exact taken_openBlock hb ih
  | chained hi d e ih ih' => exact taken_chained hi d e ih ih'
  | chainEnd =>
    intro h
    exact fun _ _ _ _ ↦ Leads.refl
  | chain hop hi d e ih ih' => exact taken_chain hop hi d e ih ih'
  | prefixOp hop d ih => exact taken_prefixOp hop d ih
  | trailed d e ih ih' => exact taken_trailed d e ih ih'
  | trailersEnd =>
    intro h
    exact fun _ _ _ _ ↦ Leads.refl
  | call hp d _ ih ih' => exact taken_call hp d ih ih'
  | index hb hc d _ ih ih' => exact taken_index hb hc d ih ih'
  | @ident token rest hk =>
    intro h bound _
    simp only [operand, reads_bind, reads_next]
    exact ⟨token, rest, ⟨rfl, rfl⟩, by rw [hk]; exact reads_pure.mpr ⟨rfl, rfl⟩⟩
  | @int token rest hk hmax =>
    intro h bound _
    simp only [operand, reads_bind, reads_next]
    refine ⟨token, rest, ⟨rfl, rfl⟩, ?_⟩
    rw [hk]
    simp only [integer, if_pos hmax, reads_pure, and_self]
  | @str token rest hk =>
    intro h bound _
    simp only [operand, reads_bind, reads_next]
    exact ⟨token, rest, ⟨rfl, rfl⟩, by rw [hk]; exact reads_pure.mpr ⟨rfl, rfl⟩⟩
  | @boolTrue token rest hk =>
    intro h bound _
    simp only [operand, reads_bind, reads_next]
    exact ⟨token, rest, ⟨rfl, rfl⟩, by rw [hk]; exact reads_pure.mpr ⟨rfl, rfl⟩⟩
  | @boolFalse token rest hk =>
    intro h bound _
    simp only [operand, reads_bind, reads_next]
    exact ⟨token, rest, ⟨rfl, rfl⟩, by rw [hk]; exact reads_pure.mpr ⟨rfl, rfl⟩⟩
  | group hp hc d ih => exact taken_group hp hc d ih
  | cond hs hp hc d _ ih ih' => exact taken_cond hs hp hc d ih ih'
  | condElse hs hp hc hw d e _ ih ih' ih'' => exact taken_condElse hs hp hc hw d e ih ih' ih''
  | fn hs hp d _ ih ih' => exact taken_fn hs hp d ih ih'
  | array hb _ ih => exact taken_array hb ih
  | hash hb _ ih => exact taken_hash hb ih
  | @emptyList sort bracket close rest hc =>
    intro h bound _
    exact (reads_listUntil bracket.close_ne_eof).mpr (.inl ⟨rfl, close, rfl, hc⟩)
  | list d e ih ih' => exact taken_list d e ih ih'
  | noOthers hc => exact taken_noOthers hc
  | others hc d e ih ih' => exact taken_others hc d e ih ih'
  | @value expr tokens rest d ih =>
    intro h bound hbound
    exact reads_map.mpr ⟨expr, d.reads_lowest_of ih h hbound, rfl⟩
  | @parameter token rest hk =>
    intro h bound _
    exact reads_map.mpr ⟨_, reads_parameter.mpr ⟨token, rfl, hk, rfl⟩, rfl⟩
  | pair hc d e ih ih' => exact taken_pair hc d e ih ih'

end Derivation

end MonkeyLang
