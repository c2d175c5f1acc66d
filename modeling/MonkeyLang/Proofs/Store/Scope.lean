import MonkeyLang.Proofs.OrderedMap
import MonkeyLang.Proofs.Store.Growth

/-!
What is seen from the frame of a call: the arguments first, and behind them what is seen from where
the function was made. It goes on to be seen as long as no frame changes.
-/

namespace MonkeyLang.Store

variable {store before after : Store} {env scope : Address} {name : String} {value : Value}
  {args : List (String × Value)}

/-- All frames that the environment sees are there. -/
def Rooted (store : Store) (env : Address) : Prop :=
  ∀ address ∈ store.chain env, address < store.nextAddress

/-- The store with a frame for a call, in which the arguments are bound, inside an environment. -/
def call (store : Store) (scope : Address) (args : List (String × Value)) : Store :=
  args.foldl (fun inner arg ↦ inner.bind store.nextAddress arg.1 arg.2) (store.enclose scope)

theorem call_concat (store : Store) (scope : Address) (args : List (String × Value))
    (arg : String × Value) : store.call scope (args ++ [arg]) =
      (store.call scope args).bind store.nextAddress arg.1 arg.2 := List.foldl_concat ..

section Lookup

theorem local?_addFrame (store : Store) (outer : List Address) (name : String) (address : Address) :
    (store.addFrame outer).local? name address = store.local? name address := by
  rw [local?, local?, frame?_addFrame]
  split
  · next he => rw [he, frame?_eq_none (Nat.le_refl _)]; rfl
  · rfl

theorem chain_addFrame_new (store : Store) (outer : List Address) :
    (store.addFrame outer).chain store.nextAddress = store.nextAddress :: outer := by
  rw [chain, frame?_addFrame, if_pos rfl]
  rfl

/-- A new frame has no bindings of its own. -/
theorem get?_enclose (store : Store) (scope : Address) (name : String) :
    (store.enclose scope).get? store.nextAddress name = store.get? scope name := by
  have hnew : store.local? name store.nextAddress = none := by
    rw [local?, frame?_eq_none (Nat.le_refl _)]
    rfl
  rw [get?, get?, enclose, chain_addFrame_new, List.findSome?_cons, local?_addFrame, hnew]
  exact findSome?_congr fun address _ ↦ local?_addFrame store _ name address

theorem local?_bind_self (h : env < store.nextAddress) (name : String) (value : Value) :
    (store.bind env name value).local? name env = some value := by
  obtain ⟨frame, hframe⟩ := Option.isSome_iff_exists.mp (isSome_frame?.mpr h)
  rw [local?, frame?_bind, hframe, Option.map_some, if_pos rfl, Option.bind_some,
    OrderedMap.find?_insert, if_pos rfl]

theorem get?_of_local? (h : store.local? name env = some value) :
    store.get? env name = some value := by
  rw [get?, chain, List.findSome?_cons, h]

theorem get?_bind_self (h : env < store.nextAddress) (name : String) (value : Value) :
    (store.bind env name value).get? env name = some value :=
  get?_of_local? (local?_bind_self h name value)

theorem get?_bind (h : env < store.nextAddress) (name other : String) (value : Value) :
    (store.bind env name value).get? env other =
      if name = other then some value else store.get? env other := by
  split
  · next he => exact he ▸ get?_bind_self h name value
  · next hne => exact get?_bind_of_not_seen (.inl fun he ↦ hne he.symm)

theorem nextAddress_call (store : Store) (scope : Address) (args : List (String × Value)) :
    (store.call scope args).nextAddress = store.nextAddress + 1 := by
  induction args using List.reverseRecOn with
  | nil => exact nextAddress_addFrame store _
  | append_singleton args arg ih => rw [call_concat, nextAddress_bind, ih]

/-- The last one of several arguments with the same name counts. -/
theorem get?_call (store : Store) (scope : Address) (args : List (String × Value)) (name : String) :
    (store.call scope args).get? store.nextAddress name =
      (OrderedMap.last? name args).or (store.get? scope name) := by
  induction args using List.reverseRecOn with
  | nil => exact get?_enclose store scope name
  | append_singleton args arg ih =>
    obtain ⟨bound, value⟩ := arg
    have hnew : store.nextAddress < (store.call scope args).nextAddress := by
      rw [nextAddress_call]
      exact Nat.lt_succ_self _
    rw [OrderedMap.last?_concat, call_concat, get?_bind hnew, ih]
    split <;> rfl

theorem chain_call (store : Store) (scope : Address) (args : List (String × Value)) :
    (store.call scope args).chain store.nextAddress = store.nextAddress :: store.chain scope := by
  induction args using List.reverseRecOn with
  | nil => exact chain_addFrame_new store _
  | append_singleton args arg ih => rw [call_concat, chain_bind, ih]

end Lookup

section Growth

/-- To bind a name in a new frame changes none of the old ones. -/
theorem Extends.bind_new (h : before.Extends after) (hnew : before.nextAddress ≤ env)
    (name : String) (value : Value) : before.Extends (after.bind env name value) := by
  intro address frame hframe
  have hold : address < before.nextAddress := isSome_frame?.mp (hframe ▸ rfl)
  rw [frame?_bind, h address frame hframe, Option.map_some,
    if_neg (Nat.ne_of_gt (Nat.lt_of_lt_of_le hold hnew))]

theorem call_extends (store : Store) (scope : Address) (args : List (String × Value)) :
    store.Extends (store.call scope args) := by
  induction args using List.reverseRecOn with
  | nil => exact store.enclose_extends scope
  | append_singleton args arg ih =>
    rw [call_concat]
    exact ih.bind_new (Nat.le_refl _) arg.1 arg.2

theorem Extends.chain_eq (h : before.Extends after) (henv : env < before.nextAddress) :
    after.chain env = before.chain env := by
  obtain ⟨frame, hframe⟩ := Option.isSome_iff_exists.mp (isSome_frame?.mpr henv)
  rw [chain, chain, hframe, h env frame hframe]

theorem Extends.get?_eq (h : before.Extends after) (henv : before.Rooted env) (name : String) :
    after.get? env name = before.get? env name := by
  rw [get?, get?, h.chain_eq (henv env (List.mem_cons_self ..))]
  refine findSome?_congr fun address hm ↦ ?_
  obtain ⟨frame, hframe⟩ := Option.isSome_iff_exists.mp (isSome_frame?.mpr (henv address hm))
  rw [local?, local?, hframe, h address frame hframe]

theorem ChangesOnly.lt_nextAddress {names : List String} {address : Address}
    (h : before.ChangesOnly env names after) (haddress : address < before.nextAddress) :
    address < after.nextAddress := by
  obtain ⟨frame, hframe⟩ := Option.isSome_iff_exists.mp (isSome_frame?.mpr haddress)
  obtain ⟨-, frame', hframe', -⟩ := h address frame hframe
  exact isSome_frame?.mp (hframe' ▸ rfl)

theorem ChangesOnly.local?_eq {names : List String} {address : Address}
    (h : before.ChangesOnly env names after) (haddress : address < before.nextAddress)
    (hname : name ∉ names) : after.local? name address = before.local? name address := by
  obtain ⟨frame, hframe⟩ := Option.isSome_iff_exists.mp (isSome_frame?.mpr haddress)
  obtain ⟨-, frame', hframe', hgrows⟩ := h address frame hframe
  rw [local?, local?, hframe, hframe']
  exact hgrows.others name hname

theorem Rooted.extends (h : before.Rooted env) (hframes : before.Extends after) :
    after.Rooted env := by
  intro address hm
  rw [hframes.chain_eq (h env (List.mem_cons_self ..))] at hm
  exact Nat.lt_of_lt_of_le (h address hm) hframes.nextAddress_le

theorem Rooted.call (h : store.Rooted scope) (args : List (String × Value)) :
    (store.call scope args).Rooted store.nextAddress := by
  intro address hm
  rw [chain_call] at hm
  rw [nextAddress_call]
  rcases List.mem_cons.mp hm with rfl | hm
  · exact Nat.lt_succ_self _
  · exact Nat.lt_succ_of_lt (h address hm)

theorem Rooted.bind (h : store.Rooted env) (written : Address) (name : String) (value : Value) :
    (store.bind written name value).Rooted env := by
  intro address hm
  rw [chain_bind] at hm
  rw [nextAddress_bind]
  exact h address hm

end Growth

end MonkeyLang.Store
