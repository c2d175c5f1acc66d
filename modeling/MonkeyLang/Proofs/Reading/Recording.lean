import MonkeyLang.Proofs.Reading.Recorded

/-!
The functions of the parser with a record of its calls, each of which does what the reader of the
same name does, as long as there is more fuel than there are tokens.
-/

namespace MonkeyLang.Recorder

variable {α : Type} {most least lag fuel bound count count' : Nat} {cursor : Cursor}

theorem run_next_bind {f : Token → Recorder α} {cursor : Cursor} :
    (next >>= f).run cursor = (f (cursor.tokens.head?.getD .eof)).run
      ⟨cursor.tokens.tail, cursor.errors, cursor.calls⟩ := rfl

section Loops

variable {item : Recorder α} {item' : Reader α} {statement : Recorder Node}
  {statement' : Reader Node} {close : Kind}

theorem reader_commaItems_of_front {tokens : List Token} (h : front tokens ≠ .comma)
    (item : Reader α) (count : Nat) :
    Reader.commaItems item count tokens = ⟨.ok [], [], tokens⟩ := by
  cases count with
  | zero => rfl
  | succ count =>
    rw [Reader.commaItems, Reader.accept_bind, if_neg h]
    rfl

/-- A turn of the loop over items reads a comma and an item. -/
theorem records_commaItems (h : Records most 0 0 item item') (hcount : most < count)
    (hcount' : most ≤ count') :
    Records most 0 0 (commaItems item count) (Reader.commaItems item' count') := by
  induction count generalizing most count' with
  | zero => exact absurd hcount (Nat.not_lt_zero _)
  | succ count ih =>
    intro cursor hc
    by_cases hcomma : front cursor.tokens = .comma
    · have hfront : front cursor.tokens ≠ .eof := by
        rw [hcomma]
        nofun
      have hlt := length_tail_lt hfront
      obtain ⟨count', rfl⟩ := Nat.exists_eq_add_of_lt (show 0 < count' by omega)
      have hitem : RecordsAt 1 0 (do let _ ← next; item) (do let _ ← Reader.next; item') cursor :=
        (records_next.bind (Nat.zero_le 1) fun _ ↦ h.mono (Nat.sub_le ..) le_rfl le_rfl) cursor hc
      have hrest : _ <:+ cursor.tokens.tail := List.drop_one ▸ hitem.taken
      have hturn : RecordsAt 0 0
          (do
            let first ← call (.turn .items) (do let _ ← next; item)
            let others ← commaItems item count
            return first :: others)
          (do
            let first ← (do let _ ← Reader.next; item')
            let others ← Reader.commaItems item' (0 + count')
            return first :: others) cursor := by
        have h' : Records (most - 1) 0 0 item item' := h.mono (Nat.sub_le ..) le_rfl le_rfl
        refine (hitem.turn hfront hrest .items).bind_loop (Nat.zero_le 1) hfront hrest hc
          fun first ↦ ?_
        exact (ih h' (by omega) (by omega)).bind le_rfl fun others ↦ records_pure _
      refine hturn.congr ?_ ?_
      · change EStateM.run (if front cursor.tokens = .comma then _ else _) cursor = _
        rw [if_pos hcomma]
      · rw [Reader.commaItems, Reader.accept_bind, if_pos hcomma]
        rfl
    · refine (records_pure [] cursor hc).congr ?_
        (reader_commaItems_of_front hcomma item' count')
      change EStateM.run (if front cursor.tokens = .comma then _ else _) cursor = _
      rw [if_neg hcomma]

theorem records_listUntil (h : Records most 0 0 item item') (hcount : most < count)
    (hcount' : most ≤ count') :
    Records most 0 0 (listUntil close item count) (Reader.listUntil close item' count') := by
  refine ((records_accept close).bind le_rfl fun taken ↦ ?_).call rfl
  split
  · exact records_pure _
  · refine h.bind le_rfl fun first ↦
      .bind (records_commaItems h hcount hcount') le_rfl fun others ↦ ?_
    exact (records_expect close).bind le_rfl fun _ ↦ records_pure _

/-- The loop over statements ends at the end or at a token of kind `close`. -/
abbrev Stops (close : Kind) (tokens : List Token) : Prop :=
  front tokens = .eof ∨ front tokens = close

theorem reader_statementsUntil_of_stops {tokens : List Token} (h : Stops close tokens)
    (statement : Reader Node) (count : Nat) :
    Reader.statementsUntil close statement count tokens = ⟨.ok [], [], tokens⟩ := by
  cases count with
  | zero => rfl
  | succ count =>
    rw [Reader.statementsUntil, Reader.peek_bind, if_pos (by exact h)]
    rfl

theorem reader_statementsUntil_of_not_stops {tokens : List Token} (h : ¬ Stops close tokens)
    (statement : Reader Node) (count : Nat) :
    Reader.statementsUntil close statement (count + 1) tokens = (do
      let first ← Reader.attempt statement
      let others ← Reader.statementsUntil close statement count
      return first.toList ++ others) tokens := by
  rw [Reader.statementsUntil, Reader.peek_bind, if_neg (by exact h)]

/-- A turn of the loop over statements attempts one of them. -/
theorem records_statementsUntil (h : Records most 1 0 statement statement') (hcount : most < count)
    (hcount' : most ≤ count') :
    Records most 0 0 (statementsUntil close statement count)
      (Reader.statementsUntil close statement' count') := by
  induction count generalizing most count' with
  | zero => exact absurd hcount (Nat.not_lt_zero _)
  | succ count ih =>
    intro cursor hc
    by_cases hstops : Stops close cursor.tokens
    · refine (records_pure [] cursor hc).congr ?_
        (reader_statementsUntil_of_stops hstops statement' count')
      change EStateM.run (if Stops close cursor.tokens then _ else _) cursor = _
      rw [if_pos hstops]
    · have hfront : front cursor.tokens ≠ .eof := fun he ↦ hstops (.inl he)
      have hlt := length_tail_lt hfront
      obtain ⟨count', rfl⟩ := Nat.exists_eq_add_of_lt (show 0 < count' by omega)
      obtain ⟨hattempt, hrest⟩ := (h cursor hc).attempt hfront
      have hturn : RecordsAt 0 0
          (do
            let first ← call (.turn .statements) (attempt (call .statement statement))
            let others ← statementsUntil close statement count
            return first.toList ++ others)
          (do
            let first ← Reader.attempt statement'
            let others ← Reader.statementsUntil close statement' (0 + count')
            return first.toList ++ others) cursor := by
        have h' : Records (most - 1) 1 0 statement statement' :=
          h.mono (Nat.sub_le ..) le_rfl le_rfl
        refine hattempt.bind_loop le_rfl hfront hrest hc fun first ↦ ?_
        exact (ih h' (by omega) (by omega)).bind le_rfl fun others ↦ records_pure _
      refine hturn.congr ?_ (reader_statementsUntil_of_not_stops hstops statement' (0 + count'))
      change EStateM.run (if Stops close cursor.tokens then _ else _) cursor = _
      rw [if_neg hstops]

theorem stops_statementsUntil (h : Records most 1 0 statement statement') (hcount : most ≤ count)
    {tokens : List Token} (ht : tokens.length ≤ most) :
    Stops close (Reader.statementsUntil close statement' count tokens).rest := by
  induction count generalizing most tokens with
  | zero =>
    obtain rfl := List.length_eq_zero_iff.mp (Nat.le_zero.mp (ht.trans hcount))
    exact .inl rfl
  | succ count ih =>
    by_cases hstops : Stops close tokens
    · rwa [reader_statementsUntil_of_stops hstops]
    · have hfront : front tokens ≠ .eof := fun he ↦ hstops (.inl he)
      have hrest : (Reader.attempt statement' tokens).rest <:+ tokens.tail :=
        ((h ⟨tokens, [], []⟩ ht).attempt hfront).2
      have hle := hrest.length_le
      have hlt := length_tail_lt hfront
      have h' : Records (most - 1) 1 0 statement statement' := h.mono (Nat.sub_le ..) le_rfl le_rfl
      obtain ⟨first, hfirst⟩ := Reader.attempt_isOk statement' tokens
      obtain ⟨others, hothers⟩ := Reader.statementsUntil_isOk close statement' count
        (Reader.attempt statement' tokens).rest
      rw [reader_statementsUntil_of_not_stops hstops, Reader.rest_bind hfirst,
        Reader.rest_bind hothers]
      exact ih h' (by omega) (by omega)

end Loops

theorem records_integer (token : Token) :
    Records most 0 0 (integer token) (Reader.integer token) := by
  unfold integer Reader.integer
  split
  · exact records_pure _
  · exact records_fail _

theorem records_binder : Records most 0 0 binder Reader.binder :=
  (records_expect _).bind le_rfl fun _ ↦ records_pure _

theorem records_parameter : Records most 0 0 parameter Reader.parameter := by
  refine ((records_next.bind (Nat.zero_le 1) fun token ↦ ?_).mono
    le_rfl (Nat.zero_le 1) le_rfl).call rfl
  split
  · exact records_pure _
  · exact records_fail _

section Forms

variable {expr : Precedence → Recorder Node} {expr' : Precedence → Reader Node}
  (h : ∀ precedence, Records most 1 0 (expr precedence) (expr' precedence))

include h

theorem records_value (precedence : Precedence) :
    Records most 0 0 (expr precedence) (expr' precedence) :=
  (h precedence).mono le_rfl (Nat.zero_le 1) le_rfl

theorem records_letStmt (token : Token) :
    Records most 0 0 (letStmt expr token) (Reader.letStmt expr' token) := by
  refine (records_binder.bind le_rfl fun name ↦ (records_expect _).bind le_rfl fun _ ↦ ?_).call rfl
  refine (records_value h _).bind le_rfl fun value ↦ ?_
  exact (records_accept _).bind le_rfl fun _ ↦ records_pure _

theorem records_returnStmt (token : Token) :
    Records most 0 0 (returnStmt expr token) (Reader.returnStmt expr' token) := by
  refine ((records_value h _).bind le_rfl fun value ↦ ?_).call rfl
  exact (records_accept _).bind le_rfl fun _ ↦ records_pure _

theorem records_exprStmt (token : Token) :
    Records most 1 0 (exprStmt expr token) (Reader.exprStmt expr' token) := by
  refine ((h _).bind (Nat.zero_le 1) fun value ↦ ?_).call rfl
  exact (records_accept _).bind le_rfl fun _ ↦ records_pure _

theorem records_statement : Records most 1 0 (statement expr) (Reader.statement expr') := by
  refine .peek_bind fun token ↦ ?_
  obtain ⟨kind, literal⟩ := token
  cases kind with
  | kwLet =>
    refine records_next.bind (Nat.zero_le 1) fun token ↦ ?_
    exact (records_letStmt h token).mono (Nat.sub_le ..) le_rfl le_rfl
  | kwReturn =>
    refine records_next.bind (Nat.zero_le 1) fun token ↦ ?_
    exact (records_returnStmt h token).mono (Nat.sub_le ..) le_rfl le_rfl
  | _ => exact records_exprStmt h _

theorem records_grouped : Records most 0 0 (grouped expr) (Reader.grouped expr') := by
  refine ((records_value h _).bind le_rfl fun inner ↦ ?_).call rfl
  exact (records_expect _).bind le_rfl fun _ ↦ records_pure _

theorem records_hashPair : Records most 0 0 (hashPair expr) (Reader.hashPair expr') := by
  refine ((records_value h _).bind le_rfl fun key ↦
    (records_expect _).bind le_rfl fun _ ↦ ?_).call rfl
  exact (records_value h _).bind le_rfl fun value ↦ records_pure _

theorem records_prefixed (token : Token) : Records most 0 0 (prefixed expr token)
    (do return .prefixOp token token.literal (← expr' .unary)) :=
  ((records_value h _).bind le_rfl fun _ ↦ records_pure _).call rfl

variable (hfuel : most < fuel) (hbound : most ≤ bound)

include hfuel hbound

theorem records_block : Records most 0 0 (block expr fuel) (Reader.block expr' bound) := by
  refine ((records_expect _).bind le_rfl fun brace ↦ ?_).call rfl
  refine (records_statementsUntil (records_statement h) hfuel hbound).bind le_rfl fun nodes ↦ ?_
  exact (records_accept _).bind le_rfl fun _ ↦ records_pure _

theorem records_conditional (token : Token) :
    Records most 0 0 (conditional expr fuel token) (Reader.conditional expr' bound token) := by
  refine ((records_expect _).bind le_rfl fun _ ↦
    (records_value h _).bind le_rfl fun condition ↦ ?_).call rfl
  refine (records_expect _).bind le_rfl fun _ ↦ ?_
  refine (records_block h hfuel hbound).bind le_rfl fun consequence ↦ ?_
  refine (records_accept _).bind le_rfl fun taken ↦ ?_
  split
  · exact (records_block h hfuel hbound).bind le_rfl fun _ ↦ records_pure _
  · exact records_pure _

theorem records_function (token : Token) :
    Records most 0 0 (function expr fuel token) (Reader.function expr' bound token) := by
  refine ((records_expect _).bind le_rfl fun _ ↦ ?_).call rfl
  refine (records_listUntil records_parameter hfuel hbound).bind le_rfl fun params ↦ ?_
  exact (records_block h hfuel hbound).bind le_rfl fun body ↦ records_pure _

/-- An operand takes a token before it reads anything else. -/
theorem records_operand :
    Records (most + 1) 1 1 (operand expr fuel) (Reader.operand expr' bound) := by
  refine records_next.bind le_rfl fun token ↦ ?_
  rw [Nat.add_sub_cancel]
  obtain ⟨kind, literal⟩ := token
  cases kind with
  | ident | string | kwTrue | kwFalse => exact records_pure _
  | int => exact records_integer _
  | bang | minus => exact records_prefixed h _
  | lparen => exact records_grouped h
  | kwIf => exact records_conditional h hfuel hbound _
  | kwFn => exact records_function h hfuel hbound _
  | lbracket =>
    exact (records_listUntil (records_value h _) hfuel hbound).bind le_rfl fun _ ↦ records_pure _
  | lbrace =>
    exact (records_listUntil (records_hashPair h) hfuel hbound).bind le_rfl fun _ ↦ records_pure _
  | _ => exact records_fail _

theorem records_continuation (left : Node) (token : Token) :
    Records most 0 0 (continuation expr fuel left token)
      (Reader.continuation expr' bound left token) := by
  unfold continuation Reader.continuation
  refine Records.call ?_ rfl
  obtain ⟨kind, literal⟩ := token
  cases kind with
  | lparen =>
    exact (records_listUntil (records_value h _) hfuel hbound).bind le_rfl fun _ ↦ records_pure _
  | lbracket =>
    refine (records_value h _).bind le_rfl fun _ ↦ ?_
    exact (records_expect _).bind le_rfl fun _ ↦ records_pure _
  | _ => exact (records_value h _).bind le_rfl fun _ ↦ records_pure _

omit h hfuel hbound in
theorem front_ne_eof {precedence : Precedence} {kind : Kind}
    (hbinds : precedence.level < (Precedence.ofKind kind).level) : kind ≠ .eof := by
  rintro rfl
  cases precedence <;> exact absurd hbinds (by decide)

omit h hfuel hbound in
theorem reader_continuations_of_not_binds {precedence : Precedence} {tokens : List Token}
    (hbinds : ¬ precedence.level < (Precedence.ofKind (front tokens)).level) (count : Nat)
    (left : Node) : Reader.continuations expr' bound precedence count left tokens =
      ⟨.ok left, [], tokens⟩ := by
  cases count with
  | zero => rfl
  | succ count =>
    rw [Reader.continuations, Reader.peek_bind, if_neg (by exact hbinds)]
    rfl

/-- A turn of the loop over operators reads an operator and what goes on behind it. -/
theorem records_continuations (precedence : Precedence) (hcount : most < count)
    (hcount' : most ≤ count') (left : Node) :
    Records most 0 0 (continuations expr fuel precedence count left)
      (Reader.continuations expr' bound precedence count' left) := by
  induction count generalizing most count' left with
  | zero => exact absurd hcount (Nat.not_lt_zero _)
  | succ count ih =>
    intro cursor hc
    by_cases hbinds : precedence.level < (Precedence.ofKind (front cursor.tokens)).level
    · have hfront := front_ne_eof hbinds
      have hlt := length_tail_lt hfront
      obtain ⟨count', rfl⟩ := Nat.exists_eq_add_of_lt (show 0 < count' by omega)
      have h' : ∀ precedence, Records (most - 1) 1 0 (expr precedence) (expr' precedence) :=
        fun precedence ↦ (h precedence).mono (Nat.sub_le ..) le_rfl le_rfl
      have hlonger : RecordsAt 1 0 (do let token ← next; continuation expr fuel left token)
          (do let token ← Reader.next; Reader.continuation expr' bound left token) cursor := by
        refine records_next.bind (Nat.zero_le 1) (fun token ↦ ?_) cursor hc
        exact records_continuation h' (by omega) (by omega) left token
      have hrest : _ <:+ cursor.tokens.tail := List.drop_one ▸ hlonger.taken
      have hturn : RecordsAt 0 0
          (do
            let longer ← call (.turn .operators) (do
              let token ← next
              continuation expr fuel left token)
            continuations expr fuel precedence count longer)
          (do
            let longer ← (do
              let token ← Reader.next
              Reader.continuation expr' bound left token)
            Reader.continuations expr' bound precedence (0 + count') longer) cursor := by
        refine (hlonger.turn hfront hrest _).bind_loop (Nat.zero_le 1) hfront hrest hc
          fun longer ↦ ?_
        exact ih h' (by omega) (by omega) (by omega) (by omega) longer
      refine hturn.congr ?_ ?_
      · change EStateM.run (if precedence.level < (Precedence.ofKind (front cursor.tokens)).level
          then _ else _) cursor = _
        rw [if_pos hbinds]
      · rw [Reader.continuations, Reader.peek_bind, if_pos (by exact hbinds)]
        rfl
    · refine (records_pure left cursor hc).congr ?_
        (reader_continuations_of_not_binds hbinds count' left)
      change EStateM.run (if precedence.level < (Precedence.ofKind (front cursor.tokens)).level
        then _ else _) cursor = _
      rw [if_neg hbinds]

end Forms

section End

variable {tokens : List Token} (hend : front tokens = .eof)

include hend

theorem reader_operand_of_end (expr : Precedence → Reader Node) (bound : Nat) :
    Reader.operand expr bound tokens = ⟨.error (.noExpression .eof), [], tokens.tail⟩ := by
  rw [Reader.operand, Reader.next_bind]
  rw [front] at hend
  generalize tokens.head?.getD .eof = token at hend ⊢
  obtain ⟨kind, literal⟩ := token
  obtain rfl : kind = .eof := hend
  rfl

theorem reader_expr_of_end (bound : Nat) (precedence : Precedence) :
    Reader.expr bound precedence tokens = ⟨.error (.noExpression .eof), [], tokens.tail⟩ := by
  cases bound with
  | zero =>
    change (⟨.error (.noExpression (front tokens)), [], tokens.tail⟩ : Reading Node) = _
    rw [hend]
  | succ bound =>
    rw [Reader.expr]
    simp only [bind, Reader.andThen, reader_operand_of_end hend]

theorem run_operand_of_end (expr : Precedence → Recorder Node) (fuel : Nat)
    (errors : List ParseError) (calls : List Call) :
    (operand expr fuel).run ⟨tokens, errors, calls⟩ =
      .error .failed ⟨tokens.tail, errors ++ [.noExpression .eof], calls⟩ := by
  rw [operand, run_next_bind]
  rw [front] at hend
  generalize tokens.head?.getD .eof = token at hend ⊢
  obtain ⟨kind, literal⟩ := token
  obtain rfl : kind = .eof := hend
  rfl

theorem run_expr_of_end (expr : Precedence → Recorder Node) (fuel : Nat)
    (rest : Node → Recorder Node) (errors : List ParseError) (calls : List Call) (bound : Nat)
    (precedence : Precedence) :
    (operand expr fuel >>= rest).run ⟨tokens, errors, calls⟩ =
      (Reader.expr bound precedence tokens).recorded ⟨tokens, errors, calls⟩ [] := by
  rw [EStateM.run_bind, run_operand_of_end hend, reader_expr_of_end hend, Reading.recorded,
    Reading.errors, List.append_nil]
  rfl

end End

/-- With enough fuel, an expression is read as by the reader, whose bound does not matter either. -/
theorem records_expr (hfuel : most < fuel) (hbound : most ≤ bound) (precedence : Precedence) :
    Records most 1 0 (Recorder.expr fuel precedence) (Reader.expr bound precedence) := by
  induction most generalizing fuel bound precedence with
  | zero =>
    intro cursor hc
    obtain ⟨fuel, rfl⟩ := Nat.exists_eq_add_of_lt hfuel
    have hnil := List.length_eq_zero_iff.mp (Nat.le_zero.mp hc)
    refine RecordsAt.expression (fun hfront ↦ absurd (congrArg front hnil) hfront) fun hend ↦ ?_
    exact ⟨run_expr_of_end hend _ _ _ _ _ _ _, _, reader_expr_of_end hend bound precedence⟩
  | succ most ih =>
    intro cursor hc
    obtain ⟨fuel, rfl⟩ := Nat.exists_eq_add_of_lt hfuel
    refine RecordsAt.expression (fun hfront ↦ ?_) fun hend ↦ ?_
    · obtain ⟨bound, rfl⟩ := Nat.exists_eq_add_of_lt hbound
      have h : ∀ precedence, Records most 1 0 (Recorder.expr (most + 1 + fuel) precedence)
          (Reader.expr (most + bound) precedence) :=
        fun precedence ↦ ih (by omega) (by omega) precedence
      rw [Reader.expr]
      refine ((records_operand h (by omega) (by omega)).bind le_rfl fun left ↦ ?_) cursor hc
      exact records_continuations h (by omega) (by omega) precedence (by omega) (by omega) left
    · exact ⟨run_expr_of_end hend _ _ _ _ _ _ _, _, reader_expr_of_end hend bound precedence⟩

/-- With enough fuel the parser with a record ends as the parser does, and at the end. -/
theorem records_program {tokens : List Token} (hfuel : tokens.length < fuel) :
    ∃ after, (program fuel).run ⟨tokens, [], []⟩ = .ok (parseTokens tokens).statements after ∧
      after.errors = (parseTokens tokens).errors ∧ front after.tokens = .eof ∧
      Logged 0 0 tokens after.tokens after.errors after.calls := by
  have hstatement : Records tokens.length 1 0 (statement (expr fuel))
      (Reader.statement (Reader.expr tokens.length)) :=
    records_statement fun precedence ↦ records_expr hfuel le_rfl precedence
  let whole : Reader (List Node) := Reader.statementsUntil .eof
    (Reader.statement (Reader.expr tokens.length)) tokens.length
  have hrecords : Records tokens.length 0 0 (program fuel) whole :=
    records_statementsUntil hstatement hfuel le_rfl
  have hstops : Stops .eof (whole tokens).rest := stops_statementsUntil hstatement le_rfl le_rfl
  obtain ⟨nodes, hok⟩ : ∃ nodes, (whole tokens).outcome = .ok nodes :=
    Reader.statementsUntil_isOk _ _ _ _
  obtain ⟨calls, hrun, hlog⟩ := hrecords ⟨tokens, [], []⟩ le_rfl
  have hparse : parseTokens tokens = ⟨nodes, (whole tokens).dropped⟩ := by
    change (⟨(whole tokens).outcome.toOption.getD [], (whole tokens).dropped⟩ : Parsed) = _
    rw [hok]
    rfl
  refine ⟨⟨(whole tokens).rest, (whole tokens).dropped, calls⟩, ?_, ?_, or_self_iff.mp hstops, hlog⟩
  · rw [hrun, Reading.recorded, Reading.errors, hok, hparse]
    rfl
  · rw [hparse]

end MonkeyLang.Recorder
