import MonkeyLang.Proofs.Store.Growth
import MonkeyLang.Proofs.Value.Parts

/-!
What can be reached from an environment: the values of the names that it sees, the parts of values,
and what can be reached from the environments of functions.
-/

namespace MonkeyLang

namespace Store

/-- The value can be reached from the environment. -/
inductive Reaches (store : Store) : Address → Value → Prop
  | bound {env address : Address} {name : String} {value : Value} :
      address ∈ store.chain env → store.local? name address = some value → Reaches store env value
  | element {env : Address} {id : Nat} {elements : List Value} {value : Value} :
      Reaches store env (.array id elements) → value ∈ elements → Reaches store env value
  | key {env : Address} {id : Nat} {entries : List (HashKey × Value × Value)}
      {entry : HashKey × Value × Value} :
      Reaches store env (.hash id entries) → entry ∈ entries → Reaches store env entry.2.1
  | value {env : Address} {id : Nat} {entries : List (HashKey × Value × Value)}
      {entry : HashKey × Value × Value} :
      Reaches store env (.hash id entries) → entry ∈ entries → Reaches store env entry.2.2
  | wrapped {env : Address} {id : Nat} {value : Value} :
      Reaches store env (.returned id value) → Reaches store env value
  | captured {env scope : Address} {id : Nat} {params : List Node} {body : Node} {value : Value} :
      Reaches store env (.function id params body scope) → Reaches store scope value →
      Reaches store env value

/-- No fault can be reached from the environment. -/
def FaultFree (store : Store) (env : Address) : Prop :=
  ∀ value, store.Reaches env value → value.isError = false

/-- The environment, those of the functions that can be reached from it, and all that are yet to
come. -/
def Around (store : Store) (env address : Address) : Prop :=
  address = env ∨ store.nextAddress ≤ address ∨
    ∃ id params body, store.Reaches env (.function id params body address)

variable {store : Store} {env : Address}

/-- Nothing can be reached from a new environment. -/
theorem not_reaches_addFrame (store : Store) (value : Value) :
    ¬ (store.addFrame []).Reaches store.nextAddress value := by
  intro h
  generalize hnew : store.nextAddress = new at h
  induction h with
  | bound ha hlocal =>
    have hframe : (store.addFrame []).frame? store.nextAddress = some ⟨[], []⟩ := by
      rw [frame?, addFrame, Array.getElem?_push, nextAddress, if_pos rfl]
    subst hnew
    rw [chain, hframe] at ha
    obtain rfl := List.mem_singleton.mp ha
    rw [local?, hframe] at hlocal
    cases hlocal
  | element _ _ ih | key _ _ ih | value _ _ ih | wrapped _ ih | captured _ _ ih => exact ih hnew

theorem Reaches.part {value part : Value} (h : store.Reaches env value) (hm : part ∈ value.parts) :
    store.Reaches env part := by
  cases value with
  | array => exact h.element hm
  | hash =>
    obtain ⟨entry, hentry, rfl | rfl⟩ := Value.mem_parts_hash.mp hm
    · exact h.key hentry
    · exact h.value hentry
  | returned =>
    rw [List.mem_singleton.mp hm]
    exact h.wrapped
  | _ => exact absurd hm List.not_mem_nil

end Store

end MonkeyLang
