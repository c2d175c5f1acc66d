import MonkeyLang.Store
import Mathlib.Order.Defs.Unbundled

/-!
How frames and their store grow: no frame and no name is ever removed, and names keep their places.
-/

namespace MonkeyLang

theorem findSome?_congr {α β : Type} {f g : α → Option β} {as : List α}
    (h : ∀ a ∈ as, f a = g a) : as.findSome? f = as.findSome? g := by
  induction as with
  | nil => rfl
  | cons a as ih =>
    obtain ⟨ha, has⟩ := List.forall_mem_cons.mp h
    rw [List.findSome?_cons, List.findSome?_cons, ha, ih has]

/-- The frame has gained bindings of the given names, behind the old ones or in their places. -/
structure Frame.GrowsBy (names : List String) (before after : Frame) : Prop where
  outer : after.outer = before.outer
  keys : before.bindings.keys <+: after.bindings.keys
  others : ∀ name ∉ names, after.bindings.find? name = before.bindings.find? name

namespace Frame.GrowsBy

variable {names : List String} {frame before mid after : Frame}

theorem rfl (frame : Frame) : frame.GrowsBy names frame :=
  ⟨Eq.refl _, List.prefix_rfl, fun _ _ ↦ Eq.refl _⟩

theorem trans (h : before.GrowsBy names mid) (h' : mid.GrowsBy names after) :
    before.GrowsBy names after where
  outer := h'.outer.trans h.outer
  keys := h.keys.trans h'.keys
  others name hn := (h'.others name hn).trans (h.others name hn)

theorem mono {names' : List String} (h : before.GrowsBy names after) (hsub : names ⊆ names') :
    before.GrowsBy names' after :=
  ⟨h.outer, h.keys, fun name hn ↦ h.others name fun hm ↦ hn (hsub hm)⟩

theorem insert {name : String} (h : name ∈ names) (frame : Frame) (value : Value) :
    frame.GrowsBy names { frame with bindings := frame.bindings.insert name value } where
  outer := Eq.refl _
  keys := by
    rw [OrderedMap.keys_insert]
    split
    · exact List.prefix_rfl
    · exact List.prefix_append _ _
  others other hother := by
    rw [OrderedMap.find?_insert, if_neg]
    rintro rfl
    exact hother h

end Frame.GrowsBy

namespace Store

section Frames

theorem frame?_eq_none {store : Store} {address : Address} (h : store.nextAddress ≤ address) :
    store.frame? address = none := Array.getElem?_eq_none h

theorem isSome_frame? {store : Store} {address : Address} :
    (store.frame? address).isSome = true ↔ address < store.nextAddress := by
  rw [frame?, nextAddress, isSome_getElem?]

theorem frame?_bind (store : Store) (env address : Address) (name : String) (value : Value) :
    (store.bind env name value).frame? address = (store.frame? address).map fun frame ↦
      if env = address then { frame with bindings := frame.bindings.insert name value }
      else frame := by
  rw [frame?, bind, Array.getElem?_modify, frame?]
  split
  · rfl
  · simp

theorem nextAddress_bind (store : Store) (env : Address) (name : String) (value : Value) :
    (store.bind env name value).nextAddress = store.nextAddress := Array.size_modify

theorem nextAddress_addFrame (store : Store) (outer : List Address) :
    (store.addFrame outer).nextAddress = store.nextAddress + 1 := Array.size_push _

theorem frame?_addFrame (store : Store) (outer : List Address) (address : Address) :
    (store.addFrame outer).frame? address =
      if address = store.nextAddress then some ⟨[], outer⟩ else store.frame? address := by
  rw [frame?, addFrame, Array.getElem?_push]
  rfl

theorem frame?_enclose (store : Store) (outer address : Address) :
    (store.enclose outer).frame? address =
      if address = store.nextAddress then some ⟨[], store.chain outer⟩
      else store.frame? address := frame?_addFrame store (store.chain outer) address

theorem chain_bind (store : Store) (env address : Address) (name : String) (value : Value) :
    (store.bind env name value).chain address = store.chain address := by
  rw [chain, chain, frame?_bind]
  cases store.frame? address with
  | none => rfl
  | some frame =>
    simp only [Option.map_some]
    split <;> rfl

theorem local?_bind {store : Store} {env address : Address} {name other : String}
    {value found : Value}
    (h : (store.bind env name value).local? other address = some found) :
    found = value ∨ store.local? other address = some found := by
  rw [local?, frame?_bind] at h
  rw [local?]
  cases hf : store.frame? address with
  | none =>
    rw [hf] at h
    cases h
  | some frame =>
    rw [hf] at h
    simp only [Option.map_some, Option.bind_some] at h ⊢
    split at h
    · rw [OrderedMap.find?_insert] at h
      split at h
      · cases h
        exact .inl rfl
      · exact .inr h
    · exact .inr h

/-- To bind a name changes no lookup of another one, and none from an environment that does not see
the frame. -/
theorem get?_bind_of_not_seen {store : Store} {env written : Address} {name other : String}
    {value : Value} (h : other ≠ name ∨ written ∉ store.chain env) :
    (store.bind written name value).get? env other = store.get? env other := by
  have hlocal : ∀ address ∈ store.chain env,
      (store.bind written name value).local? other address = store.local? other address := by
    intro address hm
    rw [local?, local?, frame?_bind]
    cases store.frame? address with
    | none => rfl
    | some frame =>
      rw [Option.map_some, Option.bind_some, Option.bind_some]
      split
      · next he =>
        have hne : name ≠ other := fun hn ↦ h.elim (fun hne ↦ hne hn.symm) fun hunseen ↦
          hunseen (he ▸ hm)
        rw [OrderedMap.find?_insert, if_neg hne]
      · rfl
  rw [get?, get?, chain_bind]
  exact findSome?_congr hlocal

theorem local?_enclose {store : Store} {outer address : Address} {name : String} {value : Value}
    (h : (store.enclose outer).local? name address = some value) :
    store.local? name address = some value := by
  rw [local?, frame?_enclose] at h
  split at h
  · cases h
  · exact h

theorem mem_chain_enclose {store : Store} {env outer address : Address}
    (h : address ∈ (store.enclose outer).chain env) :
    address = env ∨ address ∈ store.chain outer ∨ address ∈ store.chain env := by
  rw [chain, frame?_enclose] at h
  split at h
  · rcases List.mem_cons.mp h with rfl | hm
    · exact .inl rfl
    · exact .inr (.inl hm)
  · exact .inr (.inr h)

end Frames

variable {names : List String} {env : Address} {before mid after : Store}

/-- All frames are still there as they were. -/
def Extends (before after : Store) : Prop :=
  ∀ address frame, before.frame? address = some frame → after.frame? address = some frame

/-- All frames are still there as they were, but for that of an environment, which has gained
bindings of the given names. -/
def ChangesOnly (env : Address) (names : List String) (before after : Store) : Prop :=
  ∀ address frame, before.frame? address = some frame →
    (address ≠ env → after.frame? address = some frame) ∧
    ∃ frame', after.frame? address = some frame' ∧ frame.GrowsBy names frame'

theorem Extends.trans (h : before.Extends mid) (h' : mid.Extends after) : before.Extends after :=
  fun address frame hf ↦ h' address frame (h address frame hf)

theorem Extends.nextAddress_le (h : before.Extends after) :
    before.nextAddress ≤ after.nextAddress := by
  refine Nat.le_of_not_lt fun hlt ↦ ?_
  obtain ⟨frame, hframe⟩ := Option.isSome_iff_exists.mp (isSome_frame?.mpr hlt)
  have hgone := h _ _ hframe
  rw [frame?_eq_none (Nat.le_refl _)] at hgone
  cases hgone

theorem Extends.changesOnly (h : before.Extends after) : before.ChangesOnly env names after :=
  fun address frame hf ↦
    ⟨fun _ ↦ h address frame hf, frame, h address frame hf, Frame.GrowsBy.rfl frame⟩

theorem ChangesOnly.trans (h : before.ChangesOnly env names mid)
    (h' : mid.ChangesOnly env names after) : before.ChangesOnly env names after := by
  intro address frame hf
  obtain ⟨hsame, frame', hf', hgrows⟩ := h address frame hf
  obtain ⟨_, frame'', hf'', hgrows'⟩ := h' address frame' hf'
  exact ⟨fun hne ↦ (h' address frame (hsame hne)).1 hne, frame'', hf'', hgrows.trans hgrows'⟩

theorem ChangesOnly.mono {names' : List String} (h : before.ChangesOnly env names after)
    (hsub : names ⊆ names') : before.ChangesOnly env names' after := by
  intro address frame hf
  obtain ⟨hsame, frame', hf', hgrows⟩ := h address frame hf
  exact ⟨hsame, frame', hf', hgrows.mono hsub⟩

/-- A change of a frame that is not there yet changes none of those that are. -/
theorem ChangesOnly.extends (h : before.ChangesOnly before.nextAddress names after) :
    before.Extends after := by
  intro address frame hf
  refine (h address frame hf).1 ?_
  rintro rfl
  rw [frame?_eq_none (Nat.le_refl _)] at hf
  cases hf

theorem bind_changesOnly {name : String} (h : name ∈ names) (store : Store) (value : Value) :
    store.ChangesOnly env names (store.bind env name value) := by
  intro address frame hf
  rw [frame?_bind, hf, Option.map_some]
  refine ⟨fun hne ↦ by rw [if_neg hne.symm], _, Eq.refl _, ?_⟩
  split
  · exact .insert h frame value
  · exact .rfl frame

theorem enclose_extends (store : Store) (outer : Address) :
    store.Extends (store.enclose outer) := by
  intro address frame hf
  have hne : address ≠ store.nextAddress := by
    rintro rfl
    rw [frame?_eq_none (Nat.le_refl _)] at hf
    cases hf
  rw [frame?_enclose, if_neg hne, hf]

end Store

end MonkeyLang
