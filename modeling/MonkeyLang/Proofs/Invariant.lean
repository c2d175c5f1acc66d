import MonkeyLang.Proofs.Evaluation.Guarded
import MonkeyLang.Proofs.Node.Readable
import MonkeyLang.Proofs.OrderedMap
import MonkeyLang.Proofs.Run
import MonkeyLang.Proofs.Value.Parts
import Mathlib.Order.Defs.PartialOrder

/-!
Invariants of machines: what holds of all values and environments, in a world that grows with the
machine, if every way to make one keeps it. Runs under guard are those runs in which an invariant
holds at every step.
-/

namespace MonkeyLang

/-- The abort is the fault of a tree with a node out of place. -/
def Abort.isInternal : Abort → Bool
  | unhandled .. | unsuited _ => true
  | rejected _ | depthLimit => false

/-- Every entry of a hash stands at the key of its own key value, and no two stand at one key. -/
structure Keyed (entries : List (HashKey × Value × Value)) : Prop where
  own : ∀ entry ∈ entries, entry.2.1.hashKey? = some entry.1
  distinct : (OrderedMap.keys entries).Nodup

theorem Keyed.nil : Keyed [] := ⟨by simp, List.nodup_nil⟩

theorem Keyed.insert {entries : List (HashKey × Value × Value)} {k : HashKey} {key value : Value}
    (h : Keyed entries) (hkey : key.hashKey? = some k) :
    Keyed (OrderedMap.insert k (key, value) entries) where
  own := OrderedMap.forall_mem_insert hkey h.own
  distinct := OrderedMap.nodup_keys_insert h.distinct k (key, value)

theorem Guard.exists_unmeasured {guard : Guard} {function : Builtin} {args : List Value}
    (h : guard.permits function args = false) : ∃ n, guard.measures n = false := by
  unfold permits at h
  split at h
  · next value =>
    cases hextent : value.extent? with
    | none =>
      rw [hextent] at h
      cases h
    | some n => exact ⟨n, by simpa [hextent] using h⟩
  · cases h

/-- The values that come up without being made: of literals and of operators, lengths, null and the
builtin functions. -/
inductive Value.Elementary (guard : Guard) : Value → Prop
  | literal {n : Int} : 0 ≤ n → n ≤ Reader.maxInteger → Elementary guard (.integer n)
  | computed {value : Value} : value.Computed → Elementary guard value
  | length {n : Nat} : guard.measures n = true → Elementary guard (.integer n)
  | null : Elementary guard .null
  | builtin {function : Builtin} : Elementary guard (.builtin function)

theorem Value.elementary_length {guard : Guard} {value : Value}
    (h : guard.permits .len [value] = true) : (Builtin.length value).Elementary guard := by
  unfold Builtin.length
  split
  · exact .length h
  · exact .length h
  · exact .computed .error

/-- How a value is made that has a number of creation, out of values with `P` and environments with
`E`. -/
inductive Creation (E : Address → Prop) (P : Value → Prop) : (Nat → Value) → Prop
  | array {elements : List Value} :
      (∀ element ∈ elements, P element) → Creation E P (.array · elements)
  | hash {entries : List (HashKey × Value × Value)} :
      Keyed entries → (∀ entry ∈ entries, P entry.2.1 ∧ P entry.2.2) →
      Creation E P (.hash · entries)
  | function {params : List Node} {body : Node} {env : Address} :
      (∀ param ∈ params, param.Readable .name) → body.Readable .block → E env →
      Creation E P (.function · params body env)
  | returned {value : Value} : P value → Creation E P (.returned · value)

/-- What holds of the values and the environments of a machine in a world, and goes on to hold as
the world grows with the machine. -/
structure Invariant (W : Type) [Preorder W] (guard : Guard) where
  /-- The machine with these frames and this number of creations is in the world. -/
  state : W → Store → Nat → Prop
  /-- The environment is there in the world. -/
  env : W → Address → Prop
  /-- The value may come up in the world. -/
  value : W → Value → Prop
  env_mono {w w' : W} {e : Address} : w ≤ w' → env w e → env w' e
  value_mono {w w' : W} {v : Value} : w ≤ w' → value w v → value w' v
  elementary {w : W} {v : Value} : v.Elementary guard → value w v
  part {w : W} {v inner : Value} : value w v → inner ∈ v.parts → value w inner
  function {w : W} {id : Nat} {params : List Node} {body : Node} {e : Address} :
    value w (.function id params body e) →
      (∀ param ∈ params, param.Readable .name) ∧ body.Readable .block ∧ env w e
  admitted {w : W} {machine : Machine} {v : Value} :
    state w machine.store machine.created → value w v → guard.admits machine v = true
  found {w : W} {store : Store} {created : Nat} {e : Address} {name : String} {v : Value} :
    state w store created → env w e → store.get? e name = some v → value w v
  bound {w : W} {store : Store} {created : Nat} {e : Address} {v : Value} (name : String) :
    state w store created → env w e → value w v → state w (store.bind e name v) created
  opened {w : W} {store : Store} {created : Nat} :
    state w store created →
      ∃ w', w ≤ w' ∧ state w' (store.addFrame []) created ∧ env w' store.nextAddress
  enclosed {w : W} {store : Store} {created : Nat} {e : Address} :
    state w store created → env w e →
      ∃ w', w ≤ w' ∧ state w' (store.enclose e) created ∧ env w' store.nextAddress
  made {w : W} {store : Store} {created : Nat} {make : Nat → Value} :
    state w store created → Creation (env w) (value w) make →
      ∃ w', w ≤ w' ∧ state w' store (created + 1) ∧ value w' (make created)

namespace Invariant

variable {W : Type} [Preorder W] {guard : Guard} (I : Invariant W guard) {α β γ δ : Type}

/-- The world has grown into one in which the machine is, with `P`. -/
def Grown (w : W) (P : W → Prop) (machine : Machine) : Prop :=
  ∃ w', w ≤ w' ∧ I.state w' machine.store machine.created ∧ P w'

/-- From every machine in the world the run gives something with `P`. -/
def Gives (P : W → α → Prop) (w : W) (run : Run α) : Prop :=
  ∀ machine, I.state w machine.store machine.created →
    ∃ a after, run machine = .ok a after ∧ I.Grown w (P · a) after

/-- The result of a run is that of a run under guard, and has `P`. The run under guard has ended
early only if it came upon a length that is too great. -/
def Follows (wrap : α → β) (P : W → α → Prop) (w : W) (result : EStateM.Result Abort Machine α) :
    EStateM.Result Abort Machine (Except Misstep β) → Prop
  | .ok (.ok b) after =>
    ∃ a, b = wrap a ∧ result = .ok a after ∧ I.Grown w (P · a) after
  | .ok (.error misstep) _ => misstep = .overlong ∧ ∃ n, guard.measures n = false
  | .error cause after =>
    result = .error cause after ∧ cause.isInternal = false ∧ I.Grown w (fun _ ↦ True) after

/-- From every machine in the world the run goes as it does under guard. -/
def Guards (wrap : α → β) (P : W → α → Prop) (w : W) (run : Run α) (guarded : Guarded β) : Prop :=
  ∀ machine, I.state w machine.store machine.created →
    I.Follows wrap P w (run machine) (guarded.run machine)

/-- The value, if there is one. -/
def optional (w : W) (found : Option Value) : Prop := ∀ value ∈ found, I.value w value

def list (w : W) (values : List Value) : Prop := ∀ value ∈ values, I.value w value

def table (w : W) (entries : List (HashKey × Value × Value)) : Prop :=
  Keyed entries ∧ ∀ entry ∈ entries, I.value w entry.2.1 ∧ I.value w entry.2.2

/-- What has been evaluated in turn, or the fault that came up. -/
def evaluated (P : W → α → Prop) (w : W) : Except Value α → Prop
  | .ok a => P w a
  | .error fault => I.value w fault

variable {I} {w : W} {P : W → α → Prop} {Q : W → γ → Prop} {run : Run α} {machine : Machine}

theorem value_error (fault : Fault) : I.value w (.error fault) := I.elementary (.computed .error)

theorem value_unwrap {value : Value} (h : I.value w value) : I.value w value.unwrap := by
  cases value with
  | returned id inner => exact I.part h (List.mem_singleton.mpr rfl)
  | _ => exact h

theorem value_index {collection : Value} (h : I.value w collection) (key : Value) :
    I.value w (Value.index collection key) := by
  rcases Value.index_cases collection key with ⟨fault, hi⟩ | hi | hi
  · exact hi ▸ value_error fault
  · exact hi ▸ I.elementary .null
  · exact I.part h hi

theorem optional_none : I.optional w none := by simp [optional]

theorem optional_some {value : Value} (h : I.value w value) : I.optional w (some value) :=
  fun _ hm ↦ Option.some.inj hm ▸ h

theorem value_getD {found : Option Value} (h : I.optional w found) :
    I.value w (found.getD .null) := by
  cases found with
  | none => exact I.elementary .null
  | some value => exact h value rfl

section Gives

variable {f : α → Run γ}

theorem Grown.trans {w' : W} {p : W → Prop} (h : w ≤ w') (hg : I.Grown w' p machine) :
    I.Grown w p machine := by
  obtain ⟨w'', hle, hstate, hp⟩ := hg
  exact ⟨w'', h.trans hle, hstate, hp⟩

theorem gives_pure {a : α} (h : P w a) : I.Gives P w (pure a) :=
  fun machine hstate ↦ ⟨a, machine, rfl, w, le_refl w, hstate, h⟩

theorem gives_bind (h : I.Gives P w run)
    (hf : ∀ w' a, w ≤ w' → P w' a → I.Gives Q w' (f a)) : I.Gives Q w (run >>= f) := by
  intro machine hstate
  obtain ⟨a, mid, hrun, w', hle, hmid, ha⟩ := h machine hstate
  obtain ⟨c, after, hf, hgrown⟩ := hf w' a hle ha mid hmid
  refine ⟨c, after, ?_, hgrown.trans hle⟩
  rw [Run.run_bind, hrun]
  exact hf

theorem gives_record (entry : LogRecord) : I.Gives (fun _ _ ↦ True) w (Run.record entry) :=
  fun _ hstate ↦ ⟨(), _, rfl, w, le_refl w, hstate, trivial⟩

theorem gives_write (text : String) : I.Gives (fun _ _ ↦ True) w (Run.write text) :=
  fun _ hstate ↦ ⟨(), _, rfl, w, le_refl w, hstate, trivial⟩

theorem gives_writeLines (values : List Value) :
    I.Gives (fun _ _ ↦ True) w (Builtin.writeLines values) := by
  induction values generalizing w with
  | nil => exact gives_pure trivial
  | cons value others ih => exact gives_bind (gives_write _) fun _ _ _ _ ↦ ih

theorem gives_create {make : Nat → Value} (h : Creation (I.env w) (I.value w) make) :
    I.Gives I.value w (do return make (← Run.freshId)) :=
  fun _ hstate ↦ ⟨_, _, rfl, I.made hstate h⟩

theorem gives_newEnvironment : I.Gives I.env w Run.newEnvironment :=
  fun _ hstate ↦ ⟨_, _, rfl, I.opened hstate⟩

theorem gives_enclose {env : Address} (henv : I.env w env) :
    I.Gives I.env w (Run.enclose env) :=
  fun _ hstate ↦ ⟨_, _, rfl, I.enclosed hstate henv⟩

theorem gives_bindName {env : Address} {name : String} {value : Value} (henv : I.env w env)
    (hvalue : I.value w value) :
    I.Gives (fun _ _ ↦ True) w (Run.bindName env name value) :=
  fun _ hstate ↦ ⟨(), _, rfl, w, le_refl w, I.bound name hstate henv hvalue, trivial⟩

theorem gives_lookup? {env : Address} (henv : I.env w env) (name : String) :
    I.Gives I.optional w (Run.lookup? env name) :=
  fun _ hstate ↦ ⟨_, _, rfl, w, le_refl w, hstate, fun _ hget ↦ I.found hstate henv hget⟩

theorem gives_lookup {registry : Registry} {env : Address} (henv : I.env w env) (name : String) :
    I.Gives I.value w (Evaluation.lookup registry env name) := by
  refine gives_bind (gives_lookup? henv name) fun w' found _ hfound ↦ ?_
  split
  · exact gives_pure (hfound _ rfl)
  · split
    · exact gives_pure (I.elementary .builtin)
    · exact gives_pure (I.elementary (.computed .error))

theorem gives_builtin {function : Builtin} {args : List Value} (h : I.list w args)
    (hpermits : guard.permits function args = true) :
    I.Gives I.value w (function.apply args) := by
  have hpart : ∀ {id elements} {found : Option Value}, (∀ v ∈ found, v ∈ elements) →
      I.value w (.array id elements) → I.value w (found.getD .null) := by
    intro id elements found hfound harray
    cases found with
    | none => exact I.elementary .null
    | some v => exact I.part harray (hfound v rfl)
  unfold Builtin.apply
  split
  case h_1 => exact gives_pure (I.elementary (Value.elementary_length hpermits))
  case h_2 => exact gives_pure (hpart (fun _ ↦ List.mem_of_mem_head?) (h _ (List.mem_cons_self ..)))
  case h_3 => exact gives_pure (hpart (fun _ ↦ List.mem_of_getLast?) (h _ (List.mem_cons_self ..)))
  case h_4 id elements =>
    have harray := h _ (List.mem_cons_self ..)
    cases elements with
    | nil => exact gives_pure (I.elementary .null)
    | cons first others =>
      exact gives_create (.array fun v hv ↦ I.part harray (List.mem_cons_of_mem _ hv))
  case h_5 id elements value =>
    obtain ⟨harray, hothers⟩ := List.forall_mem_cons.mp h
    refine gives_create (.array fun v hv ↦ ?_)
    rcases List.mem_append.mp hv with hv | hv
    · exact I.part harray hv
    · exact hothers v hv
  case h_6 => exact gives_bind (gives_writeLines args) fun _ _ _ _ ↦ gives_pure (I.elementary .null)
  all_goals exact gives_pure (value_error _)

end Gives

section Guards

variable {wrap : α → β} {wrap' : γ → δ} {guarded : Guarded β} {k : α → Run γ}
  {k' : β → Guarded δ}

theorem guards_pure {a : α} (h : P w a) : I.Guards wrap P w (pure a) (pure (wrap a)) :=
  fun _ hstate ↦ ⟨a, rfl, rfl, w, le_refl w, hstate, h⟩

theorem guards_abort {cause : Abort} (h : cause.isInternal = false) :
    I.Guards wrap P w (throw cause) (Guarded.abort cause) :=
  fun _ hstate ↦ ⟨rfl, h, w, le_refl w, hstate, trivial⟩

theorem guards_bind (h : I.Guards wrap P w run guarded)
    (hk : ∀ w' a, w ≤ w' → P w' a → I.Guards wrap' Q w' (k a) (k' (wrap a))) :
    I.Guards wrap' Q w (run >>= k) (guarded >>= k') := by
  intro machine hstate
  have hrun := h machine hstate
  rw [Run.run_bind, Run.run_except_bind]
  rcases hg : guarded.run machine with ⟨misstep | b, mid⟩ | ⟨cause, mid⟩
  · rw [hg] at hrun
    exact hrun
  · rw [hg] at hrun
    obtain ⟨a, rfl, hr, w', hle, hmid, ha⟩ := hrun
    have hnext := hk w' a hle ha mid hmid
    rw [hr]
    dsimp only
    rcases hd : (k' (wrap a)).run mid with ⟨misstep | d, after⟩ | ⟨cause, after⟩ <;>
      rw [hd] at hnext
    · exact hnext
    · obtain ⟨c, hd, hk, hgrown⟩ := hnext
      exact ⟨c, hd, hk, hgrown.trans hle⟩
    · obtain ⟨hk, hcause, hgrown⟩ := hnext
      exact ⟨hk, hcause, hgrown.trans hle⟩
  · rw [hg] at hrun
    obtain ⟨hr, hrest⟩ := hrun
    rw [hr]
    exact ⟨rfl, hrest⟩

theorem Gives.guards (h : I.Gives P w run) : I.Guards id P w run (liftM run) := by
  intro machine hstate
  obtain ⟨a, after, hr, hgrown⟩ := h machine hstate
  rw [Run.run_except_lift, hr]
  exact ⟨a, rfl, rfl, hgrown⟩

theorem Gives.guards_map (h : I.Gives P w run) : I.Guards wrap P w run (wrap <$> liftM run) := by
  have hbind : I.Guards wrap P w (run >>= pure) (liftM run >>= fun a ↦ pure (wrap a)) :=
    guards_bind h.guards fun _ _ _ ha ↦ guards_pure ha
  rwa [bind_pure, bind_pure_comp] at hbind

theorem guards_some {run : Run Value} {guarded : Guarded Value}
    (h : I.Guards id I.value w run guarded) :
    I.Guards id I.optional w (some <$> run) (some <$> guarded) := by
  rw [map_eq_pure_bind, map_eq_pure_bind]
  exact guards_bind h fun _ _ _ hvalue ↦ guards_pure (optional_some hvalue)

section Use

variable {run : Run Value} {guarded : Guarded (Option Value)} {k : Value → Run γ}
  {k' : Value → Guarded δ} (h : I.Guards some I.value w run guarded)
  (hk : ∀ w' value, w ≤ w' → I.value w' value → I.Guards wrap' Q w' (k value) (k' value))

include h hk

/-- The value that comes up is there and is admitted. -/
theorem guards_use :
    I.Guards wrap' Q w (run >>= k) (guarded >>= fun found ↦ Guarded.use guard found >>= k') := by
  refine guards_bind h fun w' value hle hvalue machine hstate ↦ ?_
  have huse : (Guarded.use guard (some value)).run machine = .ok (.ok value) machine := by
    have hadmits := I.admitted hstate hvalue
    change (if guard.admits machine value = true then pure value
      else throw Misstep.notAdmitted : Guarded Value).run machine = _
    rw [if_pos hadmits]
    rfl
  rw [Run.run_except_bind, huse]
  exact hk w' value hle hvalue machine hstate

/-- What is evaluated first ends evaluation if it is a fault, and is used otherwise. -/
theorem guards_operand {exit : Value → γ}
    (hexit : ∀ {w' value}, I.value w' value → Q w' (exit value)) :
    I.Guards wrap' Q w
      (run >>= fun value ↦ if value.isError = true then pure (exit value) else k value)
      (guarded >>= fun found ↦ Guarded.use guard found >>= fun value ↦
        if value.isError = true then pure (wrap' (exit value)) else k' value) := by
  refine guards_use h fun w' value hle hvalue ↦ ?_
  split
  · exact guards_pure (hexit hvalue)
  · exact hk w' value hle hvalue

end Use

end Guards

end Invariant

end MonkeyLang
