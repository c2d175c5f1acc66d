import MonkeyLang.Proofs.Reading.Recorder
import Mathlib.Data.Nat.Basic
import Mathlib.Order.Basic
import Mathlib.Tactic.Common

/-!
The parser with a record of its calls reads as the parser does, and the record is in order: calls
only go forward, and every attempt to read a statement adds one error if it fails and none if not.
-/

namespace MonkeyLang

theorem length_tail_lt {tokens : List Token} (h : front tokens ≠ .eof) :
    tokens.tail.length < tokens.length := by
  cases tokens with
  | nil => exact absurd rfl h
  | cons token others => exact Nat.lt_succ_self _

/-- The calls that attempt to read a statement. -/
def attempts (calls : List Call) : List Call := calls.filter (·.activity = .statement)

namespace Call

/-- The error with which an attempt fails, which is the last one that is added in it. -/
def own (call : Call) : List ParseError :=
  if call.succeeded then [] else call.errors.getLast?.toList

/-- The call goes forward, as do its turns and all the expressions in it. -/
structure Progresses (call : Call) : Prop where
  forward : call.stop <:+ call.start
  statement : call.activity = .statement → front call.start ≠ .eof
  turn : ∀ loop, call.activity = .turn loop →
    front call.start ≠ .eof ∧ call.stop <:+ call.start.tail
  /-- At the end there is no expression. -/
  expression : call.activity = .expression → front call.start = .eof →
    call.succeeded = false ∧ call.inner = []
  nested : call.activity = .expression → ∀ inner ∈ call.inner, inner.activity = .expression →
    inner.start <:+ call.start.tail ∧ inner.start.length < call.start.length

/-- Besides the errors of the attempts inside it, an attempt adds one if it fails and none if
not. -/
structure Accounts (call : Call) : Prop where
  errors : call.errors = (attempts call.inner).flatMap own ++ call.own
  own : call.own.length = if call.succeeded then 0 else 1

/-- The record of the call is in order. -/
structure Sound (call : Call) : Prop where
  progresses : call.Progresses
  accounts : call.activity = .statement → call.Accounts

end Call

/-- The record of the calls between some tokens and those that are left. Statements are attempted
and expressions are read only behind the first tokens, whose numbers are given. -/
structure Logged (least lag : Nat) (tokens rest : List Token) (dropped : List ParseError)
    (calls : List Call) : Prop where
  taken : rest <:+ tokens.drop least
  sound : ∀ call ∈ calls, call.Sound
  owned : dropped = (attempts calls).flatMap Call.own
  attempted : ∀ call ∈ attempts calls,
    call.start <:+ tokens.drop least ∧ rest.length < call.start.length
  once : ((attempts calls).map (·.start.length)).Nodup
  expressions : ∀ call ∈ calls, call.activity = .expression → call.start <:+ tokens.drop lag

namespace Reading

variable {α : Type}

/-- All errors that are added in reading. -/
def errors (reading : Reading α) : List ParseError :=
  match reading.outcome with
  | .ok _ => reading.dropped
  | .error cause => reading.dropped ++ [cause]

/-- The record of a call from which the reading comes, with the calls inside it. -/
def call (reading : Reading α) (activity : Activity) (tokens : List Token) (inner : List Call) :
    Call where
  activity
  start := tokens
  stop := reading.rest
  succeeded := reading.outcome.isOk
  errors := reading.errors
  inner

/-- What comes of the same reading with a record of its calls. -/
def recorded (reading : Reading α) (cursor : Cursor) (calls : List Call) :
    EStateM.Result Interruption Cursor α :=
  let after := ⟨reading.rest, cursor.errors ++ reading.errors, cursor.calls ++ calls⟩
  match reading.outcome with
  | .ok a => .ok a after
  | .error _ => .error .failed after

variable {reading : Reading α} {tokens : List Token} {calls : List Call}

theorem own_call (activity : Activity) : (reading.call activity tokens calls).own =
    match reading.outcome with
      | .ok _ => []
      | .error cause => [cause] := by
  unfold Call.own call errors
  cases reading.outcome with
  | ok a => rfl
  | error cause => simp [Except.isOk, Except.toBool]

theorem errors_eq (activity : Activity) :
    reading.errors = reading.dropped ++ (reading.call activity tokens calls).own := by
  rw [own_call, errors]
  cases reading.outcome with
  | ok a => rw [List.append_nil]
  | error cause => rfl

theorem accounts_call (h : reading.dropped = (attempts calls).flatMap Call.own)
    (activity : Activity) : (reading.call activity tokens calls).Accounts where
  errors := by rw [call, ← h]; exact errors_eq activity
  own := by
    rw [own_call, call]
    cases reading.outcome <;> rfl

end Reading

namespace Recorder

/-- From the cursor, the parser with a record does what the reader does. -/
def RecordsAt {α : Type} (least lag : Nat) (p : Recorder α) (q : Reader α) (cursor : Cursor) :
    Prop :=
  ∃ calls, p.run cursor = (q cursor.tokens).recorded cursor calls ∧
    Logged least lag cursor.tokens (q cursor.tokens).rest (q cursor.tokens).dropped calls

/-- On at most so many tokens, the parser with a record does what the reader does. -/
def Records {α : Type} (most least lag : Nat) (p : Recorder α) (q : Reader α) : Prop :=
  ∀ cursor : Cursor, cursor.tokens.length ≤ most → RecordsAt least lag p q cursor

end Recorder

namespace Logged

variable {least lag : Nat} {tokens mid rest : List Token} {dropped dropped' : List ParseError}
  {calls calls' : List Call}

theorem nil (h : rest <:+ tokens.drop least) : Logged least lag tokens rest [] [] where
  taken := h
  sound := List.forall_mem_nil _
  owned := rfl
  attempted := List.forall_mem_nil _
  once := .nil
  expressions := List.forall_mem_nil _

theorem mono {least' lag' : Nat} (h : Logged least lag tokens rest dropped calls)
    (hleast : least' ≤ least) (hlag : lag' ≤ lag) :
    Logged least' lag' tokens rest dropped calls where
  taken := h.taken.trans (List.drop_suffix_drop_left _ hleast)
  sound := h.sound
  owned := h.owned
  attempted call hm :=
    ⟨(h.attempted call hm).1.trans (List.drop_suffix_drop_left _ hleast), (h.attempted call hm).2⟩
  once := h.once
  expressions call hm he := (h.expressions call hm he).trans (List.drop_suffix_drop_left _ hlag)

/-- Attempts of which the one ends before the other begins start at different tokens. -/
theorem append (h : Logged least lag tokens mid dropped calls)
    (h' : Logged 0 0 mid rest dropped' calls') (hlag : lag ≤ least) :
    Logged least lag tokens rest (dropped ++ dropped') (calls ++ calls') where
  taken := h'.taken.trans h.taken
  sound := List.forall_mem_append.mpr ⟨h.sound, h'.sound⟩
  owned := by
    rw [attempts, List.filter_append, List.flatMap_append, h.owned, h'.owned]
    rfl
  attempted := by
    rw [attempts, List.filter_append]
    refine List.forall_mem_append.mpr ⟨fun call hm ↦ ?_, fun call hm ↦ ?_⟩
    · obtain ⟨hstart, hrest⟩ := h.attempted call hm
      exact ⟨hstart, Nat.lt_of_le_of_lt h'.taken.length_le hrest⟩
    · obtain ⟨hstart, hrest⟩ := h'.attempted call hm
      exact ⟨hstart.trans h.taken, hrest⟩
  once := by
    rw [attempts, List.filter_append, List.map_append]
    refine List.nodup_append.mpr ⟨h.once, h'.once, fun n hn m hm ↦ ?_⟩
    obtain ⟨call, hcall, rfl⟩ := List.mem_map.mp hn
    obtain ⟨call', hcall', rfl⟩ := List.mem_map.mp hm
    have hlt := (h.attempted call hcall).2
    have hle := (h'.attempted call' hcall').1.length_le
    rw [List.drop_zero] at hle
    omega
  expressions := by
    refine List.forall_mem_append.mpr ⟨h.expressions, fun call hm he ↦ ?_⟩
    refine ((h'.expressions call hm he).trans h.taken).trans ?_
    exact List.drop_suffix_drop_left _ hlag

/-- A call that is no attempt is recorded behind those inside it. -/
theorem call {call : Call} (h : Logged least lag tokens rest dropped calls) (hcall : call.Sound)
    (hactivity : call.activity ≠ .statement) {lag' : Nat} (hlag : lag' ≤ lag)
    (hstart : call.activity = .expression → call.start <:+ tokens.drop lag') :
    Logged least lag' tokens rest dropped (calls ++ [call]) := by
  have hattempts : attempts (calls ++ [call]) = attempts calls := by
    simp [attempts, hactivity]
  refine ⟨h.taken, ?_, hattempts ▸ h.owned, hattempts ▸ h.attempted, hattempts ▸ h.once, ?_⟩
  · exact List.forall_mem_append.mpr ⟨h.sound, List.forall_mem_singleton.mpr hcall⟩
  · refine List.forall_mem_append.mpr ⟨(h.mono le_rfl hlag).expressions, ?_⟩
    exact List.forall_mem_singleton.mpr hstart

/-- An attempt takes at least one token, so that those inside it start at other tokens. -/
theorem attempt {call : Call} (h : Logged 1 lag tokens rest dropped calls) (hcall : call.Sound)
    (hactivity : call.activity = .statement) (hstart : call.start = tokens)
    (hrest : rest.length < tokens.length) :
    Logged 0 lag tokens rest (dropped ++ call.own) (calls ++ [call]) := by
  have hattempts : attempts (calls ++ [call]) = attempts calls ++ [call] := by
    simp [attempts, hactivity]
  refine ⟨h.taken.trans (List.drop_suffix_drop_left _ (Nat.zero_le _)), ?_, ?_, ?_, ?_, ?_⟩
  · exact List.forall_mem_append.mpr ⟨h.sound, List.forall_mem_singleton.mpr hcall⟩
  · rw [hattempts, List.flatMap_append, ← h.owned, List.flatMap_singleton]
  · rw [hattempts]
    refine List.forall_mem_append.mpr ⟨(h.mono (Nat.zero_le _) le_rfl).attempted, ?_⟩
    refine List.forall_mem_singleton.mpr ⟨?_, hstart ▸ hrest⟩
    rw [hstart]
    exact List.suffix_rfl
  · rw [hattempts, List.map_append]
    refine List.nodup_append.mpr ⟨h.once, by simp, fun n hn m hm ↦ ?_⟩
    obtain ⟨inner, hinner, rfl⟩ := List.mem_map.mp hn
    have hle := (h.attempted inner hinner).1.length_le
    rw [List.map_singleton, List.mem_singleton, hstart] at hm
    rw [List.length_drop] at hle
    omega
  · refine List.forall_mem_append.mpr ⟨h.expressions, List.forall_mem_singleton.mpr fun he ↦ ?_⟩
    rw [hactivity] at he
    cases he

end Logged

namespace Recorder

variable {α β : Type} {most least lag : Nat} {p : Recorder α} {q : Reader α} {cursor : Cursor}
  {f : α → Recorder β} {g : α → Reader β} {activity : Activity}

theorem recorded_append (next : Reading β) (dropped : List ParseError) (rest : List Token)
    (cursor : Cursor) (calls calls' : List Call) :
    next.recorded ⟨rest, cursor.errors ++ dropped, cursor.calls ++ calls⟩ calls' =
      (⟨next.outcome, dropped ++ next.dropped, next.rest⟩ : Reading β).recorded cursor
        (calls ++ calls') := by
  cases hnext : next.outcome <;> simp [Reading.recorded, Reading.errors, hnext]

theorem run_attempt {reading : Reading α} {calls : List Call}
    (h : p.run cursor = reading.recorded cursor calls) :
    (attempt p).run cursor = .ok reading.outcome.toOption
      ⟨reading.rest, cursor.errors ++ reading.errors, cursor.calls ++ calls⟩ := by
  rw [EStateM.run, attempt, h, Reading.recorded]
  cases reading.outcome <;> rfl

theorem run_call {reading : Reading α} {calls : List Call}
    (h : p.run cursor = reading.recorded cursor calls) :
    (call activity p).run cursor =
      reading.recorded cursor (calls ++ [reading.call activity cursor.tokens calls]) := by
  simp only [call, EStateM.run_bind, EStateM.run_get, run_attempt h, EStateM.run_modify,
    List.drop_left, Reading.recorded, Reading.call]
  cases reading.outcome with
  | ok a => simp [Except.toOption, Except.isOk, Except.toBool]
  | error cause =>
    simp [Except.toOption, Except.isOk, Except.toBool]
    rfl

namespace RecordsAt

theorem mono {least' lag' : Nat} (h : RecordsAt least lag p q cursor) (hleast : least' ≤ least)
    (hlag : lag' ≤ lag) : RecordsAt least' lag' p q cursor := by
  obtain ⟨calls, hp, hlog⟩ := h
  exact ⟨calls, hp, hlog.mono hleast hlag⟩

theorem taken (h : RecordsAt least lag p q cursor) :
    (q cursor.tokens).rest <:+ cursor.tokens.drop least := by
  obtain ⟨_, _, hlog⟩ := h
  exact hlog.taken

theorem bind (h : RecordsAt least lag p q cursor) (hlag : lag ≤ least)
    (hf : ∀ a cursor', cursor'.tokens = (q cursor.tokens).rest →
      RecordsAt 0 0 (f a) (g a) cursor') :
    RecordsAt least lag (p >>= f) (q >>= g) cursor := by
  obtain ⟨calls, hp, hlog⟩ := h
  rcases hread : q cursor.tokens with ⟨cause | a, dropped, rest⟩ <;> rw [hread] at hp hlog
  · have hq : (q >>= g) cursor.tokens = ⟨.error cause, dropped, rest⟩ := by
      simp only [Bind.bind, Reader.andThen, hread]
    refine ⟨calls, ?_, hq ▸ hlog⟩
    rw [EStateM.run_bind, hp, hq]
    rfl
  · let mid : Cursor := ⟨rest, cursor.errors ++ dropped, cursor.calls ++ calls⟩
    obtain ⟨calls', hnext, hlog'⟩ := hf a mid (by rw [hread])
    have hq : (q >>= g) cursor.tokens =
        ⟨(g a rest).outcome, dropped ++ (g a rest).dropped, (g a rest).rest⟩ := by
      simp only [Bind.bind, Reader.andThen, hread]
    refine ⟨calls ++ calls', ?_, hq ▸ hlog.append hlog' hlag⟩
    rw [EStateM.run_bind, hp, hq, ← recorded_append]
    exact hnext

theorem peek_bind {f : Token → Recorder β} {g : Token → Reader β}
    (h : RecordsAt least lag (f (cursor.tokens.head?.getD .eof))
      (g (cursor.tokens.head?.getD .eof)) cursor) :
    RecordsAt least lag (peek >>= f) (Reader.peek >>= g) cursor := h

/-- A call is in order if it goes forward and what its activity asks for is given. -/
theorem call (h : RecordsAt least lag p q cursor) (hplain : activity.isPlain = true) :
    RecordsAt least lag (call activity p) q cursor := by
  obtain ⟨calls, hp, hlog⟩ := h
  have hforward : (q cursor.tokens).rest <:+ cursor.tokens :=
    hlog.taken.trans (List.drop_suffix _ _)
  have hactivity : ∀ {other}, activity = other → other.isPlain = true := fun h ↦ h ▸ hplain
  have hcall : ((q cursor.tokens).call activity cursor.tokens calls).Sound := by
    refine ⟨⟨hforward, fun h ↦ ?_, fun _ h ↦ ?_, fun h ↦ ?_, fun h ↦ ?_⟩, fun h ↦ ?_⟩
    all_goals cases hactivity h
  refine ⟨_, run_call hp, hlog.call hcall (fun h ↦ ?_) le_rfl fun h ↦ ?_⟩
  all_goals cases hactivity h

theorem turn (h : RecordsAt least lag p q cursor) (hfront : front cursor.tokens ≠ .eof)
    (hrest : (q cursor.tokens).rest <:+ cursor.tokens.tail) (loop : Loop) :
    RecordsAt least lag (Recorder.call (.turn loop) p) q cursor := by
  obtain ⟨calls, hp, hlog⟩ := h
  have hcall : ((q cursor.tokens).call (.turn loop) cursor.tokens calls).Sound := by
    refine ⟨⟨hrest.trans (List.tail_suffix _), ?_, fun _ _ ↦ ⟨hfront, hrest⟩, ?_, ?_⟩, ?_⟩
    all_goals rintro ⟨⟩
  exact ⟨_, run_call hp, hlog.call hcall nofun le_rfl nofun⟩

/-- One turn of a loop over statements, in which one of them is attempted. -/
theorem attempt (h : RecordsAt 1 0 p q cursor) (hfront : front cursor.tokens ≠ .eof) :
    RecordsAt 0 0
      (Recorder.call (.turn .statements) (Recorder.attempt (Recorder.call .statement p)))
      (Reader.attempt q) cursor ∧
    (Reader.attempt q cursor.tokens).rest <:+ cursor.tokens.tail := by
  obtain ⟨calls, hp, hlog⟩ := h
  have hrest : (q cursor.tokens).rest <:+ cursor.tokens.tail := List.drop_one ▸ hlog.taken
  have hq : Reader.attempt q cursor.tokens = ⟨.ok (q cursor.tokens).outcome.toOption,
      (q cursor.tokens).errors, (q cursor.tokens).rest⟩ := by
    rw [Reader.attempt]
    rcases q cursor.tokens with ⟨cause | a, dropped, rest⟩ <;> rfl
  have hcall : ((q cursor.tokens).call .statement cursor.tokens calls).Sound := by
    refine ⟨⟨hrest.trans (List.tail_suffix _), fun _ ↦ hfront, ?_, ?_, ?_⟩, fun _ ↦ ?_⟩
    · rintro _ ⟨⟩
    · rintro ⟨⟩
    · rintro ⟨⟩
    · exact Reading.accounts_call hlog.owned _
  have hlog' := hlog.attempt hcall rfl rfl
    (Nat.lt_of_le_of_lt hrest.length_le (length_tail_lt hfront))
  have hattempt : RecordsAt 0 0 (Recorder.attempt (Recorder.call .statement p)) (Reader.attempt q)
      cursor := by
    refine ⟨calls ++ [(q cursor.tokens).call .statement cursor.tokens calls], ?_, ?_⟩
    · rw [run_attempt (run_call hp), hq]
      rfl
    · rw [hq]
      rwa [← Reading.errors_eq] at hlog'
  exact ⟨hattempt.turn hfront (hq ▸ hrest) _, hq ▸ hrest⟩

/-- An expression takes a token before it reads others, and fails at once at the end. -/
theorem expression (h : front cursor.tokens ≠ .eof → RecordsAt 1 1 p q cursor)
    (hend : front cursor.tokens = .eof → p.run cursor = (q cursor.tokens).recorded cursor [] ∧
      ∃ cause, q cursor.tokens = ⟨.error cause, [], cursor.tokens.tail⟩) :
    RecordsAt 1 0 (Recorder.call .expression p) q cursor := by
  by_cases hfront : front cursor.tokens = .eof
  · obtain ⟨hp, cause, hq⟩ := hend hfront
    have hlog : Logged 1 0 cursor.tokens (q cursor.tokens).rest (q cursor.tokens).dropped [] := by
      rw [hq]
      exact .nil (List.drop_one ▸ List.suffix_rfl)
    have hcall : ((q cursor.tokens).call .expression cursor.tokens []).Sound := by
      refine ⟨⟨hlog.taken.trans (List.drop_suffix _ _), ?_, ?_, fun _ _ ↦ ⟨?_, rfl⟩, ?_⟩, ?_⟩
      · rintro ⟨⟩
      · rintro _ ⟨⟩
      · rw [Reading.call, hq]
        rfl
      · exact fun _ _ hm ↦ nomatch hm
      · rintro ⟨⟩
    exact ⟨_, run_call hp, hlog.call hcall (by rintro ⟨⟩) le_rfl fun _ ↦ List.suffix_rfl⟩
  · obtain ⟨calls, hp, hlog⟩ := h hfront
    have hcall : ((q cursor.tokens).call .expression cursor.tokens calls).Sound := by
      refine ⟨⟨hlog.taken.trans (List.drop_suffix _ _), ?_, ?_, ?_, ?_⟩, ?_⟩
      · rintro ⟨⟩
      · rintro _ ⟨⟩
      · exact fun _ hend ↦ absurd hend hfront
      · intro _ inner hinner he
        have hstart : inner.start <:+ cursor.tokens.tail :=
          List.drop_one ▸ hlog.expressions inner hinner he
        exact ⟨hstart, Nat.lt_of_le_of_lt hstart.length_le (length_tail_lt hfront)⟩
      · rintro ⟨⟩
    exact ⟨_, run_call hp, hlog.call hcall (by rintro ⟨⟩) (Nat.zero_le _) fun _ ↦ List.suffix_rfl⟩

/-- Behind a turn of a loop there are fewer tokens. -/
theorem bind_loop (h : RecordsAt least lag p q cursor) (hlag : lag ≤ least)
    (hfront : front cursor.tokens ≠ .eof) (hrest : (q cursor.tokens).rest <:+ cursor.tokens.tail)
    (hc : cursor.tokens.length ≤ most) (hf : ∀ a, Records (most - 1) 0 0 (f a) (g a)) :
    RecordsAt 0 0 (p >>= f) (q >>= g) cursor := by
  refine (h.bind hlag fun a cursor' hcursor' ↦ hf a cursor' ?_).mono (Nat.zero_le _) (Nat.zero_le _)
  have hle := hrest.length_le
  have hlt := length_tail_lt hfront
  rw [hcursor']
  omega

/-- It matters only what both do from the cursor on. -/
theorem congr {p' : Recorder α} {q' : Reader α} (h : RecordsAt least lag p q cursor)
    (hp : p'.run cursor = p.run cursor) (hq : q' cursor.tokens = q cursor.tokens) :
    RecordsAt least lag p' q' cursor := by
  rwa [RecordsAt, hp, hq]

end RecordsAt

namespace Records

theorem mono {most' least' lag' : Nat} (h : Records most least lag p q) (hmost : most' ≤ most)
    (hleast : least' ≤ least) (hlag : lag' ≤ lag) : Records most' least' lag' p q :=
  fun cursor hc ↦ (h cursor (hc.trans hmost)).mono hleast hlag

/-- Behind some tokens there are fewer of them left. -/
theorem bind (h : Records most least lag p q) (hlag : lag ≤ least)
    (hf : ∀ a, Records (most - least) 0 0 (f a) (g a)) :
    Records most least lag (p >>= f) (q >>= g) := by
  intro cursor hc
  refine (h cursor hc).bind hlag fun a cursor' hcursor' ↦ hf a cursor' ?_
  have hle := (h cursor hc).taken.length_le
  rw [List.length_drop] at hle
  rw [hcursor']
  omega

theorem call (h : Records most least lag p q) (hplain : activity.isPlain = true) :
    Records most least lag (call activity p) q := fun cursor hc ↦ (h cursor hc).call hplain

theorem peek_bind {f : Token → Recorder β} {g : Token → Reader β}
    (h : ∀ token, Records most least lag (f token) (g token)) :
    Records most least lag (peek >>= f) (Reader.peek >>= g) := fun cursor hc ↦ h _ cursor hc

end Records

theorem records_pure (a : α) : Records most 0 lag (pure a) (pure a) := by
  intro cursor _
  refine ⟨[], ?_, .nil List.suffix_rfl⟩
  change EStateM.Result.ok a cursor = .ok a ⟨cursor.tokens, cursor.errors ++ [], cursor.calls ++ []⟩
  rw [List.append_nil, List.append_nil]

theorem records_fail (cause : ParseError) :
    Records most 0 lag (fail cause : Recorder α) (Reader.fail cause) := by
  intro cursor _
  refine ⟨[], ?_, .nil List.suffix_rfl⟩
  simp only [fail, EStateM.run_bind, EStateM.run_modify, Reader.fail, Reading.recorded,
    Reading.errors, List.nil_append, List.append_nil]
  rfl

theorem records_next : Records most 1 lag next Reader.next := by
  intro cursor _
  refine ⟨[], ?_, .nil (List.drop_one ▸ List.suffix_rfl)⟩
  simp only [next, peek, EStateM.run_bind, EStateM.run_get, EStateM.run_pure, EStateM.run_modify,
    Reader.next, Reading.recorded, Reading.errors, List.append_nil]

theorem records_accept (kind : Kind) : Records most 0 0 (accept kind) (Reader.accept kind) := by
  refine .peek_bind fun token ↦ ?_
  split
  · exact (records_next.bind le_rfl fun _ ↦ records_pure true).mono le_rfl (Nat.zero_le 1)
      (Nat.zero_le 1)
  · exact records_pure false

theorem records_expect (kind : Kind) : Records most 0 0 (expect kind) (Reader.expect kind) := by
  refine .peek_bind fun token ↦ ?_
  split
  · exact records_next.mono le_rfl (Nat.zero_le _) le_rfl
  · exact records_fail _

end Recorder

end MonkeyLang
