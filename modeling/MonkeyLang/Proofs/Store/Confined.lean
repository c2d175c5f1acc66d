import MonkeyLang.Proofs.Store.Reach
import MonkeyLang.Proofs.Value.Faultless

/-!
Environments which evaluation does not leave, and whose frames hold values of one sort only: the
functions among these values were made in such environments, and so will be all new frames. If no
fault can be reached from an environment then those around it make a region of faultless values.
-/

namespace MonkeyLang

namespace Store

/-- All frames that the environments of `E` see hold values with `P`, and all frames that are yet to
come belong to `E`. -/
structure Confined (E : Address → Prop) (P : Value → Prop) (store : Store) : Prop where
  next : ∀ address, store.nextAddress ≤ address → E address
  bound : ∀ env, E env → ∀ address ∈ store.chain env, ∀ name value,
    store.local? name address = some value → P value

variable {E : Address → Prop} {P q : Value → Prop} {store : Store} {env : Address}

namespace Confined

theorem bind (h : store.Confined E P) {name : String} {value : Value} (hvalue : P value) :
    (store.bind env name value).Confined E P where
  next address ha := h.next address (by rwa [nextAddress_bind] at ha)
  bound e he address ha other found hfound := by
    rw [chain_bind] at ha
    rcases local?_bind hfound with rfl | hold
    · exact hvalue
    · exact h.bound e he address ha other found hold

theorem enclose (h : store.Confined E P) {outer : Address} (houter : E outer) :
    (store.enclose outer).Confined E P where
  next address ha := by
    rw [Store.enclose, nextAddress_addFrame] at ha
    exact h.next address (Nat.le_of_succ_le ha)
  bound e he address ha name value hvalue := by
    have hold := local?_enclose hvalue
    rcases mem_chain_enclose ha with rfl | ha | ha
    · exact h.bound address he address (List.mem_cons_self ..) name value hold
    · exact h.bound outer houter address ha name value hold
    · exact h.bound e he address ha name value hold

theorem get? (h : store.Confined E P) (henv : E env) {name : String} {value : Value}
    (hget : store.get? env name = some value) : P value := by
  obtain ⟨address, ha, hlocal⟩ := List.exists_of_findSome?_eq_some hget
  exact h.bound env henv address ha name value hlocal

theorem mono {P' : Value → Prop} (h : store.Confined E P) (hP : ∀ value, P value → P' value) :
    store.Confined E P' :=
  ⟨h.next, fun env he address ha name value hv ↦ hP value (h.bound env he address ha name value hv)⟩

/-- What can be reached from a confined environment is of the sort that its frames hold. -/
theorem within (h : store.Confined E (Value.Within E q)) (henv : E env) {value : Value}
    (hreach : store.Reaches env value) : value.Within E q := by
  induction hreach with
  | bound ha hlocal => exact h.bound _ henv _ ha _ _ hlocal
  | element _ hm ih => exact (ih henv).of_mem hm
  | key _ hm ih => exact (ih henv).of_mem (Value.mem_parts_hash.mpr ⟨_, hm, .inl rfl⟩)
  | value _ hm ih => exact (ih henv).of_mem (Value.mem_parts_hash.mpr ⟨_, hm, .inr rfl⟩)
  | wrapped _ ih => exact (ih henv).of_mem (List.mem_cons_self ..)
  | captured _ _ ih ih' => exact ih' ((ih henv).scope rfl)

end Confined

theorem within_of_reaches (h : ∀ value, store.Reaches env value → q value) (value : Value) :
    store.Reaches env value → value.Within (store.Around env) q := by
  induction value using Value.induction_parts with
  | h value ih =>
    intro hreach
    refine .intro (h value hreach) (fun scope hscope ↦ ?_) fun part hm ↦ ih part hm (hreach.part hm)
    cases value with
    | function id params body env =>
      exact Option.some.inj hscope ▸ .inr (.inr ⟨id, params, body, hreach⟩)
    | _ => cases hscope

/-- An environment from which only values with `q` can be reached is confined to such values. -/
theorem confined_of_reaches (h : ∀ value, store.Reaches env value → q value) :
    store.Confined (store.Around env) (Value.Within (store.Around env) q) where
  next _ ha := .inr (.inl ha)
  bound e he address ha name value hvalue := by
    rcases he with rfl | hnext | ⟨id, params, body, hreach⟩
    · exact within_of_reaches h value (.bound ha hvalue)
    · rw [chain, frame?_eq_none hnext] at ha
      obtain rfl := List.mem_singleton.mp ha
      rw [local?, frame?_eq_none hnext] at hvalue
      cases hvalue
    · exact within_of_reaches h value (.captured hreach (.bound ha hvalue))

/-- All frames that the environments of `E` see hold faultless values whose functions were made in
`E`, and all frames that are yet to come belong to `E`. -/
structure Region (E : Address → Prop) (store : Store) : Prop where
  next : ∀ address, store.nextAddress ≤ address → E address
  bound : ∀ env, E env → ∀ address ∈ store.chain env, ∀ name value,
    store.local? name address = some value → value.Faultless E

theorem region_iff : store.Region E ↔ store.Confined E (Value.Faultless E) :=
  ⟨fun h ↦ ⟨h.next, h.bound⟩, fun h ↦ ⟨h.next, h.bound⟩⟩

theorem Region.faultless (h : store.Region E) (henv : E env) {value : Value}
    (hreach : store.Reaches env value) : value.Faultless E := by
  have hwithin := (region_iff.mp h).mono fun _ ↦ Value.faultless_iff_within.mp
  exact Value.faultless_iff_within.mpr (hwithin.within henv hreach)

theorem FaultFree.region (h : store.FaultFree env) : store.Region (store.Around env) :=
  region_iff.mpr ((confined_of_reaches h).mono fun _ ↦ Value.faultless_iff_within.mpr)

end Store

end MonkeyLang
