import MonkeyLang.Proofs.Grammar.Complete

/-!
There is one derivation at most. Readers are functions, so that two derivations of a part of a
phrase end at the same token with the same tree; what is left to compare are the parts themselves.
-/

namespace MonkeyLang

open Reader

namespace Derivation

variable {phrase : Phrase} {tokens mid rest : List Token} {tier : Tier} {node node' : Node}

theorem expr_unique (d : Derivation (.expr tier node) tokens mid)
    (d' : Derivation (.expr tier node') tokens rest) (h : Phrase.Halts tier mid)
    (h' : Phrase.Halts tier rest) : node = node' ∧ mid = rest :=
  (d.reads_expr_of (d.taken h) le_rfl tier.below_lt (Tier.le_below h.2)).unique
    (d'.reads_expr_of (d'.taken h') le_rfl tier.below_lt (Tier.le_below h'.2))

theorem closed_expr_unique {close close' : Token} {kind : Kind}
    (d : Derivation (.expr tier node) tokens (close :: mid))
    (d' : Derivation (.expr tier node') tokens (close' :: rest)) (hc : close.kind = kind)
    (hc' : close'.kind = kind) (hmem : kind ∈ Kind.closing) :
    node = node' ∧ close = close' ∧ mid = rest := by
  obtain ⟨hnode, hrest⟩ :=
    d.expr_unique d' (Phrase.halts_of_kind hc hmem) (Phrase.halts_of_kind hc' hmem)
  exact ⟨hnode, List.cons.inj hrest⟩

theorem atom_unique (d : Derivation (.atom node) tokens mid)
    (d' : Derivation (.atom node') tokens rest) (h : front mid ≠ .kwElse)
    (h' : front rest ≠ .kwElse) : node = node' ∧ mid = rest :=
  (d.taken h tokens.length (Nat.le_succ _)).unique (d'.taken h' tokens.length (Nat.le_succ _))

theorem statement_unique (d : Derivation (.statement node) tokens mid)
    (d' : Derivation (.statement node') tokens rest) (h : (Phrase.statement node).Ends mid)
    (h' : (Phrase.statement node').Ends rest) : node = node' ∧ mid = rest :=
  (d.taken h tokens.length le_rfl).unique (d'.taken h' tokens.length le_rfl)

theorem statements_unique {nodes nodes' : List Node} (d : Derivation (.statements nodes) tokens mid)
    (d' : Derivation (.statements nodes') tokens rest) (h : (Phrase.statements nodes).Ends mid)
    (h' : (Phrase.statements nodes').Ends rest) : nodes = nodes' ∧ mid = rest :=
  (d.taken h _ _ .rbrace le_rfl le_rfl (.inr rfl) h).unique
    (d'.taken h' _ _ .rbrace le_rfl le_rfl (.inr rfl) h')

theorem block_unique (d : Derivation (.block node) tokens mid)
    (d' : Derivation (.block node') tokens rest) : node = node' ∧ mid = rest :=
  (d.taken trivial tokens.length le_rfl).unique (d'.taken trivial tokens.length le_rfl)

theorem list_unique {sort : Item.Sort} {bracket : Bracket} {items items' : List Item}
    (d : Derivation (.list sort bracket items) tokens mid)
    (d' : Derivation (.list sort bracket items') tokens rest) : items = items' ∧ mid = rest :=
  (d.taken trivial tokens.length le_rfl).unique (d'.taken trivial tokens.length le_rfl)

theorem item_unique {sort : Item.Sort} {item item' : Item}
    (d : Derivation (.item sort item) tokens mid) (d' : Derivation (.item sort item') tokens rest)
    (h : (Phrase.item sort item).Ends mid) (h' : (Phrase.item sort item').Ends rest) :
    item = item' ∧ mid = rest :=
  (d.taken h tokens.length le_rfl).unique (d'.taken h' tokens.length le_rfl)

theorem front_ne_prefixOp (d : Derivation (.atom node) tokens rest) :
    ¬ (front tokens = .bang ∨ front tokens = .minus) := by
  cases d with
  | ident hk | int hk | str hk | boolTrue hk | boolFalse hk | group hk | cond hk | condElse hk
  | fn hk | array hk | hash hk =>
    rw [front_cons, hk]
    decide

theorem not_le_of_step {token : Token} {least : Nat} (h : mid.length + 1 ≤ tokens.length) :
    ¬ ((token :: tokens).length + least ≤ mid.length) := by
  rw [List.length_cons]
  omega

/-- A phrase that is read to its end has one derivation at most. -/
theorem unique (d d' : Derivation phrase tokens rest) (h : phrase.Ends rest) : d = d' := by
  -- the second derivation cannot use another form: the next token, or the length, tells them apart
  induction d with
  | program d ih =>
    cases d' with
    | program d' => rw [ih d' (.inl rfl)]
  | noStatements =>
    cases d' with
    | noStatements => rfl
  | statements d e ih ih' =>
    cases d' with
    | statements d' e' =>
      obtain ⟨-, rfl⟩ := d.statement_unique d' (e.ends_of_statements h) (e'.ends_of_statements h)
      rw [ih d' (e.ends_of_statements h), ih' e' h]
  | letStmt _ _ _ d e ih ih' =>
    cases d' with
    | letStmt _ _ _ d' e' =>
      obtain ⟨-, rfl⟩ := d.expr_unique d' (e.halts_of_ending h.1) (e'.halts_of_ending h.1)
      rw [ih d' (e.halts_of_ending h.1), ih' e' h.2]
  | returnStmt _ d e ih ih' =>
    cases d' with
    | returnStmt _ d' e' =>
      obtain ⟨-, rfl⟩ := d.expr_unique d' (e.halts_of_ending h.1) (e'.halts_of_ending h.1)
      rw [ih d' (e.halts_of_ending h.1), ih' e' h.2]
  | exprStmt d e ih ih' =>
    cases d' with
    | exprStmt d' e' =>
      obtain ⟨-, rfl⟩ := d.expr_unique d' (e.halts_of_ending h.1) (e'.halts_of_ending h.1)
      rw [ih d' (e.halts_of_ending h.1), ih' e' h.2]
  | semicolon =>
    cases d' with
    | semicolon => rfl
  | noSemicolon =>
    cases d' with
    | noSemicolon => rfl
  | closedBlock _ hc d ih =>
    cases d' with
    | closedBlock _ hc' d' =>
      obtain ⟨-, he⟩ := d.statements_unique d' (.inr hc) (.inr hc')
      obtain ⟨rfl, -⟩ := List.cons.inj he
      rw [ih d' (.inr hc)]
    | openBlock _ d' =>
      obtain ⟨-, he⟩ := d.statements_unique d' (.inr hc) (.inl rfl)
      cases he
  | openBlock _ d ih =>
    cases d' with
    | closedBlock _ hc' d' =>
      obtain ⟨-, he⟩ := d.statements_unique d' (.inl rfl) (.inr hc')
      cases he
    | openBlock _ d' => rw [ih d' (.inl rfl)]
  | chained hi d e ih ih' =>
    cases d' with
    | chained hi' d' e' =>
      obtain rfl := Option.some.inj (hi.symm.trans hi')
      obtain ⟨rfl, rfl⟩ := d.expr_unique d' (e.halts_of_chain hi h) (e'.halts_of_chain hi h)
      rw [ih d' (e.halts_of_chain hi h), ih' e' h]
    | prefixOp => cases hi
    | trailed => cases hi
  | chainEnd =>
    cases d' with
    | chainEnd => rfl
    | chain _ _ d' e' => exact absurd e'.length_le (not_le_of_step d'.length_le)
  | chain _ hi d e ih ih' =>
    cases d' with
    | chainEnd => exact absurd e.length_le (not_le_of_step d.length_le)
    | chain _ hi' d' e' =>
      obtain rfl := Option.some.inj (hi.symm.trans hi')
      obtain ⟨rfl, rfl⟩ := d.expr_unique d' (e.halts_of_chain hi h) (e'.halts_of_chain hi h)
      rw [ih d' (e.halts_of_chain hi h), ih' e' h]
  | prefixOp hop d ih =>
    cases d' with
    | chained hi => cases hi
    | prefixOp _ d' => rw [ih d' h]
    | trailed d' _ => exact absurd hop d'.front_ne_prefixOp
  | trailed d e ih ih' =>
    cases d' with
    | chained hi => cases hi
    | prefixOp hop _ => exact absurd hop d.front_ne_prefixOp
    | trailed d' e' =>
      have hf := e.front_of_trailers h.1
      obtain ⟨rfl, rfl⟩ := d.atom_unique d' hf (e'.front_of_trailers h.1)
      rw [ih d' hf, ih' e' h]
  | trailersEnd =>
    cases d' with
    | trailersEnd => rfl
    | call _ d' e' => exact absurd e'.length_le (not_le_of_step d'.length_le)
    | index _ _ d' e' =>
      exact absurd e'.length_le (not_le_of_step ((Nat.le_succ _).trans d'.length_le))
  | call hp d e ih ih' =>
    cases d' with
    | trailersEnd => exact absurd e.length_le (not_le_of_step d.length_le)
    | call _ d' e' =>
      obtain ⟨hargs, rfl⟩ := d.list_unique d'
      obtain rfl := List.map_injective_iff.mpr (fun _ _ ↦ Item.value.inj) hargs
      rw [ih d' trivial, ih' e' h]
    | index hb => exact absurd (hp.symm.trans hb) (by decide)
  | index hb hc d e ih ih' =>
    cases d' with
    | trailersEnd =>
      exact absurd e.length_le (not_le_of_step ((Nat.le_succ _).trans d.length_le))
    | call hp => exact absurd (hp.symm.trans hb) (by decide)
    | index _ hc' d' e' =>
      obtain ⟨rfl, rfl, rfl⟩ := d.closed_expr_unique d' hc hc' (by decide)
      rw [ih d' (Phrase.halts_of_kind hc (by decide)), ih' e' h]
  | ident hk =>
    cases d' with
    | ident => rfl
    | group hp => exact absurd (hp.symm.trans hk) (by decide)
  | int hk =>
    cases d' with
    | int => rfl
    | group hp => exact absurd (hp.symm.trans hk) (by decide)
  | str hk =>
    cases d' with
    | str => rfl
    | group hp => exact absurd (hp.symm.trans hk) (by decide)
  | boolTrue hk =>
    cases d' with
    | boolTrue => rfl
    | group hp => exact absurd (hp.symm.trans hk) (by decide)
  | boolFalse hk =>
    cases d' with
    | boolFalse => rfl
    | group hp => exact absurd (hp.symm.trans hk) (by decide)
  | group hp hc d ih =>
    cases d' with
    | group _ hc' d' =>
      obtain ⟨-, rfl, -⟩ := d.closed_expr_unique d' hc hc' (by decide)
      rw [ih d' (Phrase.halts_of_kind hc (by decide))]
    | ident hk | int hk | str hk | boolTrue hk | boolFalse hk | cond hk | condElse hk | fn hk
    | array hk | hash hk => exact absurd (hp.symm.trans hk) (by decide)
  | cond hs _ hc d e ih ih' =>
    cases d' with
    | cond _ _ hc' d' e' =>
      obtain ⟨-, rfl, rfl⟩ := d.closed_expr_unique d' hc hc' (by decide)
      rw [ih d' (Phrase.halts_of_kind hc (by decide)), ih' e' trivial]
    | group hp => exact absurd (hp.symm.trans hs) (by decide)
  | condElse hs _ hc hw d e f ih ih' ih'' =>
    cases d' with
    | condElse _ _ hc' hw' d' e' f' =>
      obtain ⟨-, rfl, rfl⟩ := d.closed_expr_unique d' hc hc' (by decide)
      obtain ⟨-, he'⟩ := e.block_unique e'
      obtain ⟨rfl, rfl⟩ := List.cons.inj he'
      rw [ih d' (Phrase.halts_of_kind hc (by decide)), ih' e' trivial, ih'' f' trivial]
    | group hp => exact absurd (hp.symm.trans hs) (by decide)
  | fn hs _ d e ih ih' =>
    cases d' with
    | fn _ _ d' e' =>
      obtain ⟨-, rfl⟩ := d.list_unique d'
      rw [ih d' trivial, ih' e' trivial]
    | group hp => exact absurd (hp.symm.trans hs) (by decide)
  | array hb d ih =>
    cases d' with
    | array _ d' => rw [ih d' trivial]
    | group hp => exact absurd (hp.symm.trans hb) (by decide)
  | hash hb d ih =>
    cases d' with
    | hash _ d' => rw [ih d' trivial]
    | group hp => exact absurd (hp.symm.trans hb) (by decide)
  | emptyList =>
    cases d' with
    | emptyList => rfl
  | list d e ih ih' =>
    cases d' with
    | list d' e' =>
      obtain ⟨-, rfl⟩ := d.item_unique d' e.ends_of_others e'.ends_of_others
      rw [ih d' e.ends_of_others, ih' e' trivial]
  | noOthers =>
    cases d' with
    | noOthers => rfl
  | others _ d e ih ih' =>
    cases d' with
    | others _ d' e' =>
      obtain ⟨-, rfl⟩ := d.item_unique d' e.ends_of_others e'.ends_of_others
      rw [ih d' e.ends_of_others, ih' e' trivial]
  | value d ih =>
    cases d' with
    | value d' => rw [ih d' h]
  | parameter =>
    cases d' with
    | parameter => rfl
  | pair hc d e ih ih' =>
    cases d' with
    | pair hc' d' e' =>
      obtain ⟨-, rfl, rfl⟩ := d.closed_expr_unique d' hc hc' (by decide)
      rw [ih d' (Phrase.halts_of_kind hc (by decide)), ih' e' h]

end Derivation

end MonkeyLang
