import MonkeyLang.Proofs.Invariant
import MonkeyLang.Proofs.Store.Growth
import MonkeyLang.Proofs.Value.Nested
import Mathlib.Order.Basic

/-!
Machines that stand: every number of creation has been given out, every environment has a frame,
hashes are in order and functions are made of trees that can be read. No step of evaluation ends
this.
-/

namespace MonkeyLang

/-- How far a machine has come: how many values with a number and how many frames there are. -/
abbrev Extent : Type := Nat × Nat

def Machine.extent (machine : Machine) : Extent := (machine.created, machine.store.nextAddress)

namespace Value

/-- The value is in order, apart from its parts. Its integer, if it is one, is in the range. -/
def Proper (range : Int → Prop) : Value → Prop
  | integer n => range n
  | hash _ entries => Keyed entries
  | function _ params body _ => (∀ param ∈ params, param.Readable .name) ∧ body.Readable .block
  | _ => True

/-- Every value that stands in the value is in order, with a number and an environment that have
been given out. -/
def Stands (range : Int → Prop) (extent : Extent) (value : Value) : Prop :=
  value.Within (· < extent.2) fun inner ↦ (∀ id ∈ inner.id?, id < extent.1) ∧ inner.Proper range

variable {range : Int → Prop} {extent extent' : Extent} {value : Value}

theorem Stands.mono (h : value.Stands range extent) (hle : extent ≤ extent') :
    value.Stands range extent' :=
  Within.mono h (fun _ henv ↦ Nat.lt_of_lt_of_le henv hle.2) fun _ hinner ↦
    ⟨fun id hid ↦ Nat.lt_of_lt_of_le (hinner.1 id hid) hle.1, hinner.2⟩

theorem stands_plain (hproper : value.Proper range) (hid : value.id? = none)
    (hscope : value.scope? = none) (hparts : value.parts = []) : value.Stands range extent :=
  .intro ⟨by simp [hid], hproper⟩ (by simp [hscope]) (by simp [hparts])

end Value

namespace Store

/-- The values that are bound in the frames. -/
def values (store : Store) : List Value :=
  store.frames.toList.flatMap fun frame ↦ frame.bindings.map Prod.snd

theorem mem_values {store : Store} {value : Value} (h : value ∈ store.values) :
    ∃ address frame, store.frame? address = some frame ∧
      ∃ entry ∈ frame.bindings, entry.2 = value := by
  obtain ⟨frame, hframe, hvalue⟩ := List.mem_flatMap.mp h
  obtain ⟨address, hf⟩ := List.mem_iff_getElem?.mp hframe
  exact ⟨address, frame, by rwa [frame?, ← Array.getElem?_toList], List.mem_map.mp hvalue⟩

theorem mem_values_of_frame? {store : Store} {address : Address} {frame : Frame}
    (h : store.frame? address = some frame) {entry : String × Value} (hm : entry ∈ frame.bindings) :
    entry.2 ∈ store.values := by
  rw [frame?, ← Array.getElem?_toList] at h
  exact List.mem_flatMap.mpr ⟨frame, List.mem_of_getElem? h, List.mem_map_of_mem hm⟩

theorem mem_values_of_get? {store : Store} {env : Address} {name : String} {value : Value}
    (h : store.get? env name = some value) : value ∈ store.values := by
  obtain ⟨address, _, hlocal⟩ := List.exists_of_findSome?_eq_some h
  obtain ⟨frame, hf, hfind⟩ := Option.bind_eq_some_iff.mp hlocal
  exact mem_values_of_frame? hf (OrderedMap.mem_of_find? hfind)

theorem mem_values_bind {store : Store} {env : Address} {name : String} {value bound : Value}
    (h : bound ∈ (store.bind env name value).values) : bound = value ∨ bound ∈ store.values := by
  obtain ⟨address, frame, hf, entry, hentry, rfl⟩ := mem_values h
  rw [frame?_bind] at hf
  obtain ⟨before, hbefore, rfl⟩ := Option.map_eq_some_iff.mp hf
  have hold : ∀ entry ∈ before.bindings, entry.2 = value ∨ entry.2 ∈ store.values :=
    fun entry hm ↦ .inr (mem_values_of_frame? hbefore hm)
  split at hentry
  · exact OrderedMap.forall_mem_insert (.inl rfl) hold entry hentry
  · exact hold entry hentry

theorem mem_values_addFrame {store : Store} {outer : List Address} {bound : Value}
    (h : bound ∈ (store.addFrame outer).values) : bound ∈ store.values := by
  obtain ⟨address, frame, hf, entry, hentry, rfl⟩ := mem_values h
  rw [frame?_addFrame] at hf
  split at hf
  · cases hf
    cases hentry
  · exact mem_values_of_frame? hf hentry

/-- All frames around the frames are there, and what is bound in them stands. -/
structure Stands (range : Int → Prop) (created : Nat) (store : Store) : Prop where
  outer : ∀ address frame, store.frame? address = some frame →
    ∀ env ∈ frame.outer, env < store.nextAddress
  bound : ∀ address frame, store.frame? address = some frame →
    ∀ entry ∈ frame.bindings, entry.2.Stands range (created, store.nextAddress)

variable {range : Int → Prop} {created : Nat} {store : Store} {env : Address}

namespace Stands

theorem empty : Store.empty.Stands range created where
  outer address frame hf := by cases hf
  bound address frame hf := by cases hf

theorem values (h : store.Stands range created) {value : Value} (hm : value ∈ store.values) :
    value.Stands range (created, store.nextAddress) := by
  obtain ⟨address, frame, hf, entry, hentry, rfl⟩ := mem_values hm
  exact h.bound address frame hf entry hentry

theorem create (h : store.Stands range created) : store.Stands range (created + 1) :=
  ⟨h.outer, fun address frame hf entry hm ↦
    (h.bound address frame hf entry hm).mono ⟨Nat.le_succ _, Nat.le_refl _⟩⟩

theorem chain (h : store.Stands range created) (henv : env < store.nextAddress) :
    ∀ address ∈ store.chain env, address < store.nextAddress := by
  intro address ha
  rcases List.mem_cons.mp ha with rfl | ha
  · exact henv
  · cases hf : store.frame? env with
    | none =>
      rw [hf] at ha
      cases ha
    | some frame =>
      rw [hf] at ha
      exact h.outer env frame hf address ha

theorem get? (h : store.Stands range created) {name : String} {value : Value}
    (hget : store.get? env name = some value) :
    value.Stands range (created, store.nextAddress) := by
  obtain ⟨address, _, hlocal⟩ := List.exists_of_findSome?_eq_some hget
  obtain ⟨frame, hf, hfind⟩ := Option.bind_eq_some_iff.mp hlocal
  exact h.bound address frame hf _ (OrderedMap.mem_of_find? hfind)

theorem bind (h : store.Stands range created) (name : String) {value : Value}
    (hvalue : value.Stands range (created, store.nextAddress)) :
    (store.bind env name value).Stands range created := by
  constructor
  all_goals
    rw [nextAddress_bind]
    intro address frame hf
    rw [frame?_bind] at hf
    obtain ⟨before, hbefore, rfl⟩ := Option.map_eq_some_iff.mp hf
  · split
    · exact h.outer address before hbefore
    · exact h.outer address before hbefore
  · split
    · exact OrderedMap.forall_mem_insert hvalue (h.bound address before hbefore)
    · exact h.bound address before hbefore

theorem addFrame (h : store.Stands range created) {outer : List Address}
    (houter : ∀ address ∈ outer, address < store.nextAddress) :
    (store.addFrame outer).Stands range created := by
  constructor
  all_goals
    rw [nextAddress_addFrame]
    intro address frame hf
    rw [frame?_addFrame] at hf
    split at hf
  · cases hf
    exact fun env henv ↦ Nat.lt_succ_of_lt (houter env henv)
  · exact fun env henv ↦ Nat.lt_succ_of_lt (h.outer address frame hf env henv)
  · cases hf
    exact List.forall_mem_nil _
  · exact fun entry hm ↦
      (h.bound address frame hf entry hm).mono ⟨Nat.le_refl _, Nat.le_succ _⟩

end Stands

end Store

namespace Invariant

variable {guard : Guard} {range : Int → Prop}

theorem stands_elementary (hrange : ∀ n, Word.IsSigned n → range n)
    (hmeasures : ∀ n : Nat, guard.measures n = true → range n) {value : Value} {extent : Extent}
    (h : value.Elementary guard) : value.Stands range extent := by
  cases h with
  | @literal n hlower hupper =>
    have hmax : Reader.maxInteger = 0x7fffffffffffffff := rfl
    exact Value.stands_plain (hrange n ⟨by omega, by omega⟩) rfl rfl rfl
  | computed h =>
    cases h with
    | integer => exact Value.stands_plain (hrange _ (Word.isSigned_wrap _)) rfl rfl rfl
    | _ => exact Value.stands_plain trivial rfl rfl rfl
  | length h => exact Value.stands_plain (hmeasures _ h) rfl rfl rfl
  | _ => exact Value.stands_plain trivial rfl rfl rfl

theorem stands_made {created frames : Nat} {make : Nat → Value}
    (h : Creation (· < frames) (Value.Stands range (created, frames)) make) :
    (make created).Stands range (created + 1, frames) := by
  have hgrow : ((created, frames) : Extent) ≤ (created + 1, frames) :=
    ⟨Nat.le_succ _, Nat.le_refl _⟩
  have hid : ∀ id ∈ some created, id < created + 1 := by simp
  cases h with
  | array h => exact .array ⟨hid, trivial⟩ fun element hm ↦ (h element hm).mono hgrow
  | hash hkeyed h =>
    exact .hash ⟨hid, hkeyed⟩ fun entry hm ↦ ⟨(h entry hm).1.mono hgrow, (h entry hm).2.mono hgrow⟩
  | function hparams hbody henv => exact .function ⟨hid, hparams, hbody⟩ henv
  | returned h =>
    refine .intro ⟨hid, trivial⟩ (by simp [Value.scope?]) fun part hm ↦ ?_
    rw [List.mem_singleton.mp hm]
    exact h.mono hgrow

/-- Machines stand, if the guard lets lengths in the range be taken and admits what stands. -/
def standing (guard : Guard) (range : Int → Prop) (hrange : ∀ n, Word.IsSigned n → range n)
    (hmeasures : ∀ n : Nat, guard.measures n = true → range n)
    (hadmits : ∀ {machine : Machine} {value : Value},
      machine.store.Stands range machine.created → value.Stands range machine.extent →
      guard.admits machine value = true) : Invariant Extent guard where
  state extent store created := extent = (created, store.nextAddress) ∧ store.Stands range created
  env extent env := env < extent.2
  value extent value := value.Stands range extent
  env_mono hle henv := Nat.lt_of_lt_of_le henv hle.2
  value_mono hle hvalue := hvalue.mono hle
  elementary := stands_elementary hrange hmeasures
  part h hm := h.of_mem hm
  function h := ⟨h.self.2.1, h.self.2.2, h.scope rfl⟩
  admitted := by
    rintro w machine v ⟨rfl, hstore⟩ hvalue
    exact hadmits hstore hvalue
  found := by
    rintro w store created e name v ⟨rfl, hstore⟩ _ hget
    exact hstore.get? hget
  bound := by
    rintro w store created e v name ⟨rfl, hstore⟩ _ hvalue
    exact ⟨by rw [Store.nextAddress_bind], hstore.bind name hvalue⟩
  opened := by
    rintro w store created ⟨rfl, hstore⟩
    refine ⟨(created, store.nextAddress + 1), ⟨Nat.le_refl _, Nat.le_succ _⟩, ?_,
      Nat.lt_succ_self _⟩
    exact ⟨by rw [Store.nextAddress_addFrame], hstore.addFrame (List.forall_mem_nil _)⟩
  enclosed := by
    rintro w store created e ⟨rfl, hstore⟩ henv
    refine ⟨(created, store.nextAddress + 1), ⟨Nat.le_refl _, Nat.le_succ _⟩, ?_,
      Nat.lt_succ_self _⟩
    exact ⟨by rw [Store.enclose, Store.nextAddress_addFrame], hstore.addFrame (hstore.chain henv)⟩
  made := by
    rintro w store created make ⟨rfl, hstore⟩ hmake
    refine ⟨(created + 1, store.nextAddress), ⟨Nat.le_succ _, Nat.le_refl _⟩, ?_, stands_made hmake⟩
    exact ⟨rfl, hstore.create⟩

end Invariant

end MonkeyLang
