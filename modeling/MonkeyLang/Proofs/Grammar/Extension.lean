import MonkeyLang.Proofs.Grammar.Complete
import MonkeyLang.Proofs.Token.Concatenation

/-!
Phrases in front of more tokens. A phrase that ends before the tokens do stays the same, and one
that takes them all can go on only if a block in it is open. Braces tell whether there is one.
-/

namespace MonkeyLang

open Reader

/-- What a token adds to the number of open braces. -/
def Kind.weight : Kind → Int
  | .lbrace => 1
  | .rbrace => -1
  | _ => 0

/-- How many more opening braces than closing ones there are. -/
def braces : List Token → Int
  | [] => 0
  | token :: tokens => token.kind.weight + braces tokens

@[simp] theorem braces_nil : braces [] = 0 := rfl

@[simp] theorem braces_cons (token : Token) (tokens : List Token) :
    braces (token :: tokens) = token.kind.weight + braces tokens := rfl

theorem braces_eq_sub (tokens : List Token) :
    braces tokens = tokens.countP (fun token ↦ token.kind = .lbrace) -
      tokens.countP (fun token ↦ token.kind = .rbrace) := by
  induction tokens with
  | nil => rfl
  | cons token tokens ih =>
    rw [braces_cons, ih, List.countP_cons, List.countP_cons]
    generalize token.kind = kind
    cases kind <;> simp [Kind.weight] <;> omega

theorem Tier.weight_eq {tier : Tier} {kind : Kind} (h : kind ∈ tier.operators) :
    kind.weight = 0 := by
  cases tier <;> simp only [operators, List.mem_cons, List.not_mem_nil, or_false] at h
  all_goals rcases h with rfl | rfl <;> rfl

theorem Tier.semicolon_notMem {tier : Tier} : .semicolon ∉ tier.operators := by
  cases tier <;> decide

/-- How many braces a list closes that are not its own. -/
def Bracket.excess : Bracket → Int
  | round | square => 0
  | curly => 1

theorem Bracket.weight_close (bracket : Bracket) : bracket.close.weight = - bracket.excess := by
  cases bracket <;> rfl

theorem Bracket.close_ne_semicolon (bracket : Bracket) : bracket.close ≠ .semicolon := by
  cases bracket <;> decide

namespace Phrase

/-- How many braces a phrase closes that are not its own. -/
def excess : Phrase → Int
  | list _ bracket _ | others _ bracket _ => bracket.excess
  | _ => 0

theorem excess_nonneg (phrase : Phrase) : 0 ≤ phrase.excess := by
  have hbracket : ∀ bracket : Bracket, 0 ≤ bracket.excess := by
    intro bracket
    cases bracket <;> decide
  unfold excess
  split
  · exact hbracket _
  · exact hbracket _
  · decide

/-- Whether a phrase is a proper part of a statement. -/
def IsInner : Phrase → Prop
  | program _ | statements _ | statement _ | ending => False
  | _ => True

end Phrase

theorem front_append {tokens : List Token} (h : tokens ≠ []) (more : List Token) :
    front (tokens ++ more) = front tokens := by
  obtain ⟨token, others, rfl⟩ := List.exists_cons_of_ne_nil h
  rfl

namespace Derivation

variable {phrase : Phrase} {tokens mid rest : List Token} {node : Node} {nodes : List Node}

theorem ne_nil (d : Derivation phrase tokens rest) (h : rest ≠ []) : tokens ≠ [] := by
  rintro rfl
  exact h (List.suffix_nil.mp d.suffix)

/-- A phrase that ends before the tokens do is derived in front of more tokens, too. -/
def extend (more : List Token) : {phrase : Phrase} → {tokens rest : List Token} →
    Derivation phrase tokens rest → rest ≠ [] → Derivation phrase (tokens ++ more) (rest ++ more)
  | _, _, _, .program _, h | _, _, _, .openBlock _ _, h => absurd rfl h
  | _, _, _, .noStatements, _ => .noStatements
  | _, _, _, .statements d e, h => .statements (d.extend more (e.ne_nil h)) (e.extend more h)
  | _, _, _, .letStmt hs hn ha d e, h =>
    .letStmt hs hn ha (d.extend more (e.ne_nil h)) (e.extend more h)
  | _, _, _, .returnStmt hs d e, h => .returnStmt hs (d.extend more (e.ne_nil h)) (e.extend more h)
  | _, _, _, .exprStmt d e, h => .exprStmt (d.extend more (e.ne_nil h)) (e.extend more h)
  | _, _, _, .semicolon hk, _ => .semicolon hk
  | _, _, _, .noSemicolon hk, h => .noSemicolon (by rwa [front_append h])
  | _, _, _, .closedBlock hb hc d, _ => .closedBlock hb hc (d.extend more (List.cons_ne_nil _ _))
  | _, _, _, .chained hi d e, h => .chained hi (d.extend more (e.ne_nil h)) (e.extend more h)
  | _, _, _, .chainEnd, _ => .chainEnd
  | _, _, _, .chain hop hi d e, h => .chain hop hi (d.extend more (e.ne_nil h)) (e.extend more h)
  | _, _, _, .prefixOp hop d, h => .prefixOp hop (d.extend more h)
  | _, _, _, .trailed d e, h => .trailed (d.extend more (e.ne_nil h)) (e.extend more h)
  | _, _, _, .trailersEnd, _ => .trailersEnd
  | _, _, _, .call hp d e, h => .call hp (d.extend more (e.ne_nil h)) (e.extend more h)
  | _, _, _, .index hb hc d e, h =>
    .index hb hc (d.extend more (List.cons_ne_nil _ _)) (e.extend more h)
  | _, _, _, .ident hk, _ => .ident hk
  | _, _, _, .int hk hmax, _ => .int hk hmax
  | _, _, _, .str hk, _ => .str hk
  | _, _, _, .boolTrue hk, _ => .boolTrue hk
  | _, _, _, .boolFalse hk, _ => .boolFalse hk
  | _, _, _, .group hp hc d, _ => .group hp hc (d.extend more (List.cons_ne_nil _ _))
  | _, _, _, .cond hs hp hc d e, h =>
    .cond hs hp hc (d.extend more (List.cons_ne_nil _ _)) (e.extend more h)
  | _, _, _, .condElse hs hp hc hw d e f, h =>
    .condElse hs hp hc hw (d.extend more (List.cons_ne_nil _ _))
      (e.extend more (List.cons_ne_nil _ _)) (f.extend more h)
  | _, _, _, .fn hs hp d e, h => .fn hs hp (d.extend more (e.ne_nil h)) (e.extend more h)
  | _, _, _, .array hb d, h => .array hb (d.extend more h)
  | _, _, _, .hash hb d, h => .hash hb (d.extend more h)
  | _, _, _, .emptyList hc, _ => .emptyList hc
  | _, _, _, .list d e, h => .list (d.extend more (e.ne_nil h)) (e.extend more h)
  | _, _, _, .noOthers hc, _ => .noOthers hc
  | _, _, _, .others hc d e, h => .others hc (d.extend more (e.ne_nil h)) (e.extend more h)
  | _, _, _, .value d, h => .value (d.extend more h)
  | _, _, _, .parameter hk, _ => .parameter hk
  | _, _, _, .pair hc d e, h => .pair hc (d.extend more (List.cons_ne_nil _ _)) (e.extend more h)

/-- Every brace that a phrase closes is opened in it, but for the one behind the items of a list. -/
theorem braces_le (d : Derivation phrase tokens rest) :
    braces rest ≤ braces tokens + phrase.excess := by
  induction d with
  | program d ih | value d ih => exact ih
  | noStatements | noSemicolon | chainEnd | trailersEnd => simp [Phrase.excess]
  | statements d e ih ih' | exprStmt d e ih ih' | chained _ d e ih ih' | trailed d e ih ih'
  | list d e ih ih' =>
    simp only [Phrase.excess] at ih ih' ⊢
    omega
  | letStmt hs hn ha d e ih ih' =>
    simp only [Phrase.excess, braces_cons, hs, hn, ha, Kind.weight] at ih ih' ⊢
    omega
  | returnStmt hk d e ih ih' | call hk d e ih ih' | others hk d e ih ih' =>
    simp only [Phrase.excess, Bracket.excess, braces_cons, hk, Kind.weight] at ih ih' ⊢
    omega
  | chain hop _ d e ih ih' =>
    simp only [Phrase.excess, braces_cons, Tier.weight_eq hop] at ih ih' ⊢
    omega
  | closedBlock hb hc d ih | group hb hc d ih =>
    simp only [Phrase.excess, braces_cons, hb, hc, Kind.weight] at ih ⊢
    omega
  | openBlock hb d ih | array hb d ih | hash hb d ih =>
    simp only [Phrase.excess, Bracket.excess, braces_cons, hb, Kind.weight] at ih ⊢
    omega
  | prefixOp hop d ih =>
    rcases hop with hop | hop <;>
      simp only [Phrase.excess, braces_cons, hop, Kind.weight] at ih ⊢ <;> omega
  | index hb hc d e ih ih' =>
    simp only [Phrase.excess, braces_cons, hb, hc, Kind.weight] at ih ih' ⊢
    omega
  | pair hc d e ih ih' =>
    simp only [Phrase.excess, braces_cons, hc, Kind.weight] at ih ih' ⊢
    omega
  | semicolon hk | ident hk | int hk | str hk | boolTrue hk | boolFalse hk | parameter hk =>
    simp [Phrase.excess, hk, Kind.weight]
  | cond hs hp hc d e ih ih' =>
    simp only [Phrase.excess, braces_cons, hs, hp, hc, Kind.weight] at ih ih' ⊢
    omega
  | condElse hs hp hc hw d e f ih ih' ih'' =>
    simp only [Phrase.excess, braces_cons, hs, hp, hc, hw, Kind.weight] at ih ih' ih'' ⊢
    omega
  | fn hs hp d e ih ih' =>
    simp only [Phrase.excess, Bracket.excess, braces_cons, hs, hp, Kind.weight] at ih ih' ⊢
    omega
  | emptyList hc | noOthers hc =>
    simp only [Phrase.excess, braces_cons, hc, Bracket.weight_close]
    omega

theorem terminated (d : Derivation phrase tokens rest) (h : Terminated tokens) (hne : rest ≠ []) :
    Terminated rest := (terminated_of_suffix d.suffix hne).mp h

theorem terminated_close {close : Token} (d : Derivation phrase tokens (close :: rest))
    (h : Terminated tokens) (hk : close.kind ≠ .semicolon) : Terminated rest :=
  (d.terminated h (List.cons_ne_nil _ _)).tail hk

/-- The first part of a phrase takes all tokens or leaves some to the second part. -/
theorem unclosed_parts {part : Phrase} (d : Derivation part tokens mid) (hpart : part.excess = 0)
    (ih : mid = [] → Terminated tokens → 1 ≤ braces tokens + part.excess)
    (ih' : Terminated mid → 1 ≤ braces mid + phrase.excess) (h : Terminated tokens) :
    1 ≤ braces tokens + phrase.excess := by
  by_cases hmid : mid = []
  · have hopen := ih hmid h
    have hexcess := phrase.excess_nonneg
    omega
  · have hopen := ih' (d.terminated h hmid)
    have hle := d.braces_le
    omega

/-- A part of a statement that takes all tokens up to a semicolon leaves a block open. -/
theorem unclosed (d : Derivation phrase tokens rest) (hinner : phrase.IsInner) (hrest : rest = [])
    (h : Terminated tokens) : 1 ≤ braces tokens + phrase.excess := by
  induction d with
  | program | noStatements | statements | letStmt | returnStmt | exprStmt | semicolon
  | noSemicolon => exact hinner.elim
  | chainEnd | trailersEnd =>
    subst hrest
    exact absurd h not_terminated_nil
  | ident hk | int hk | str hk | boolTrue hk | boolFalse hk | parameter hk =>
    subst hrest
    exact absurd (h.tail (by simp [hk])) not_terminated_nil
  | emptyList hc | noOthers hc =>
    subst hrest
    exact absurd (h.tail (by rw [hc]; exact Bracket.close_ne_semicolon _)) not_terminated_nil
  | openBlock hb d =>
    have hle := d.braces_le
    simp only [Phrase.excess, braces_nil, braces_cons, hb, Kind.weight] at hle ⊢
    omega
  | closedBlock hb hc d | group hb hc d =>
    subst hrest
    have hclose := d.terminated_close (h.tail (by simp [hb])) (by simp [hc])
    exact absurd hclose not_terminated_nil
  | chained _ d e ih ih' | trailed d e ih ih' | list d e ih ih' =>
    exact unclosed_parts d rfl (ih trivial) (ih' trivial hrest) h
  | others hc d e ih ih' =>
    have hopen := unclosed_parts d rfl (ih trivial) (ih' trivial hrest)
      (h.tail (by simp [hc]))
    simp only [Phrase.excess, braces_cons, hc, Kind.weight] at hopen ⊢
    omega
  | chain hop _ d e ih ih' =>
    have htail := h.tail (by rintro hk; rw [hk] at hop; exact Tier.semicolon_notMem hop)
    have hopen := unclosed_parts d rfl (ih trivial) (ih' trivial hrest) htail
    simp only [Phrase.excess, braces_cons, Tier.weight_eq hop] at hopen ⊢
    omega
  | prefixOp hop d ih =>
    have hopen := ih trivial hrest (h.tail (by rcases hop with hop | hop <;> simp [hop]))
    rcases hop with hop | hop <;>
      simp only [Phrase.excess, braces_cons, hop, Kind.weight] at hopen ⊢ <;> omega
  | call hp d e ih ih' =>
    have hopen := unclosed_parts d rfl (ih trivial) (ih' trivial hrest)
      (h.tail (by simp [hp]))
    simp only [Phrase.excess, braces_cons, hp, Kind.weight] at hopen ⊢
    omega
  | index hb hc d e ih ih' =>
    have hmid := d.terminated_close (h.tail (by simp [hb])) (by simp [hc])
    have hopen := ih' trivial hrest hmid
    have hle := d.braces_le
    simp only [Phrase.excess, braces_cons, hb, hc, Kind.weight] at hopen hle ⊢
    omega
  | cond hs hp hc d e ih ih' =>
    have hmid := d.terminated_close ((h.tail (by simp [hs])).tail (by simp [hp])) (by simp [hc])
    have hopen := ih' trivial hrest hmid
    have hle := d.braces_le
    simp only [Phrase.excess, braces_cons, hs, hp, hc, Kind.weight] at hopen hle ⊢
    omega
  | condElse hs hp hc hw d e f ih ih' ih'' =>
    have hmid := d.terminated_close ((h.tail (by simp [hs])).tail (by simp [hp])) (by simp [hc])
    have hopen := ih'' trivial hrest (e.terminated_close hmid (by simp [hw]))
    have hle := d.braces_le
    have hle' := e.braces_le
    simp only [Phrase.excess, braces_cons, hs, hp, hc, hw, Kind.weight] at hopen hle hle' ⊢
    omega
  | fn hs hp d e ih ih' =>
    have hopen := unclosed_parts d rfl (ih trivial) (ih' trivial hrest)
      ((h.tail (by simp [hs])).tail (by simp [hp]))
    simp only [Phrase.excess, braces_cons, hs, hp, Kind.weight] at hopen ⊢
    omega
  | array hb d ih | hash hb d ih =>
    have hopen := ih trivial hrest (h.tail (by simp [hb]))
    simp only [Phrase.excess, Bracket.excess, braces_cons, hb, Kind.weight] at hopen ⊢
    omega
  | value d ih => exact ih trivial hrest h
  | pair hc d e ih ih' =>
    have hopen := ih' trivial hrest (d.terminated_close h (by simp [hc]))
    have hle := d.braces_le
    simp only [Phrase.excess, braces_cons, hc, Kind.weight] at hopen hle ⊢
    omega

section Statements

variable {bound : Nat} (more : List Token)

theorem reads_extended (d : Derivation (.statement node) tokens mid) (hne : mid ≠ [])
    (hends : (Phrase.statement node).Ends mid) (hbound : (tokens ++ more).length ≤ bound) :
    (Reader.statement (Reader.expr bound)).Reads (tokens ++ more) node (mid ++ more) := by
  refine (d.extend more hne).taken ?_ bound hbound
  rw [Phrase.Ends, front_append hne]
  exact hends

/-- The value of a statement that leaves no block open stands in front of a semicolon. -/
theorem reads_closed_value {value : Node} (d : Derivation (.expr .equality value) tokens mid)
    (e : Derivation .ending mid []) (hend : Terminated tokens) (hbraces : braces tokens ≤ 0)
    (hbound : (tokens ++ more).length ≤ bound) :
    ∃ mid', (Reader.expr bound .lowest).Reads (tokens ++ more) value mid' ∧
      (accept .semicolon).Reads mid' true more := by
  cases e with
  | @semicolon semicolon _ hk =>
    have d' := d.extend more (List.cons_ne_nil _ _)
    refine ⟨semicolon :: more, d'.reads_closed_of d'.taken hk (by decide) hbound, ?_⟩
    exact (reads_accept (by decide)).mpr (.inl ⟨rfl, semicolon, rfl, hk⟩)
  | noSemicolon =>
    have hopen := d.unclosed trivial rfl hend
    simp only [Phrase.excess] at hopen
    omega

/-- A statement that takes all tokens up to a semicolon and leaves no block open is read from the
front of all longer lists. -/
theorem reads_closed (d : Derivation (.statement node) tokens []) (hend : Terminated tokens)
    (hbraces : braces tokens ≤ 0) (hbound : (tokens ++ more).length ≤ bound) :
    (Reader.statement (Reader.expr bound)).Reads (tokens ++ more) node more := by
  cases d with
  | letStmt hs hn ha d e =>
    have htail := ((hend.tail (by simp [hs])).tail (by simp [hn])).tail (by simp [ha])
    simp only [braces_cons, hs, hn, ha, Kind.weight] at hbraces
    simp only [List.cons_append, List.length_cons] at hbound ⊢
    obtain ⟨mid', hvalue, haccept⟩ :=
      d.reads_closed_value more e htail (by omega) (show _ ≤ bound from by omega)
    rw [reads_statement_let hs, reads_letStmt]
    exact ⟨_, _, _, _, mid', true, rfl, hn, ha, hvalue, haccept, rfl⟩
  | returnStmt hs d e =>
    have htail := hend.tail (by simp [hs])
    simp only [braces_cons, hs, Kind.weight] at hbraces
    simp only [List.cons_append, List.length_cons] at hbound ⊢
    obtain ⟨mid', hvalue, haccept⟩ :=
      d.reads_closed_value more e htail (by omega) (Nat.le_of_succ_le hbound)
    rw [reads_statement_return hs, reads_returnStmt]
    exact ⟨_, mid', true, hvalue, haccept, rfl⟩
  | @exprStmt start _ tokens _ _ d e =>
    have hbegins : start.kind ∈ Kind.opening := d.begins
    obtain ⟨mid', hvalue, haccept⟩ := d.reads_closed_value more e hend hbraces hbound
    rw [reads_statement_expr, reads_exprStmt]
    · exact ⟨_, mid', true, hvalue, haccept, rfl⟩
    · intro hk
      rw [List.cons_append, front_cons] at hk
      simp [Kind.opening, hk] at hbegins
    · intro hk
      rw [List.cons_append, front_cons] at hk
      simp [Kind.opening, hk] at hbegins

/-- Statements that end with a semicolon and leave no block open are read from the front of all
longer lists, and reading goes on behind them. -/
theorem statementsUntil_closed (d : Derivation (.statements nodes) tokens [])
    (hend : tokens ≠ [] → Terminated tokens) (hbraces : braces tokens ≤ 0)
    (hbound : (tokens ++ more).length ≤ bound) {count : Nat} {others : List Node}
    {dropped : List ParseError} {rest : List Token}
    (hmore : statementsUntil .eof (Reader.statement (Reader.expr bound)) count more =
      ⟨.ok others, dropped, rest⟩) :
    statementsUntil .eof (Reader.statement (Reader.expr bound)) (nodes.length + count)
      (tokens ++ more) = ⟨.ok (nodes ++ others), dropped, rest⟩ := by
  induction nodes generalizing tokens with
  | nil =>
    cases d
    rw [List.length_nil, Nat.zero_add]
    exact hmore
  | cons node nodes ih =>
    cases d with
    | @statements _ _ _ mid _ d e =>
      have hlen := d.length_le
      have hle := d.braces_le
      have hbegins := d.begins
      have hne : tokens ≠ [] := by
        rintro rfl
        simp [Phrase.least] at hlen
      simp only [Phrase.excess] at hle
      simp only [List.length_append] at hbound hlen
      have hothers := ih e (d.terminated (hend hne)) (by omega)
        (by rw [List.length_append]; omega)
      have hfront : front (tokens ++ more) ≠ .eof := by
        rw [front_append hne]
        intro hk
        simp [Phrase.Begins, Kind.opening, hk] at hbegins
      have hread : (Reader.statement (Reader.expr bound)).Reads (tokens ++ more) node
          (mid ++ more) := by
        by_cases hmid : mid = []
        · subst hmid
          exact d.reads_closed more (hend hne) (by omega) (by rw [List.length_append]; omega)
        · exact d.reads_extended more hmid (e.ends_of_statements (.inl rfl))
            (by rw [List.length_append]; omega)
      rw [List.length_cons, Nat.add_right_comm]
      exact statementsUntil_step (by simp [hfront]) hread hothers

end Statements

end Derivation

end MonkeyLang
