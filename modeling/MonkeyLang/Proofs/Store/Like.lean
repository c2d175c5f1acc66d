import MonkeyLang.Machine
import MonkeyLang.Proofs.Store.Growth
import MonkeyLang.Proofs.Value.Like

/-!
Stores and machines that differ in what two runs may differ. One step on both of them leaves them
so.
-/

namespace MonkeyLang

namespace Likeness

variable (L : Likeness)

/-- The bindings of visible names. -/
def shown (bindings : OrderedMap String Value) : OrderedMap String Value :=
  bindings.filter fun entry ↦ L.visible entry.1

variable {L} {name : String}

theorem shown_cons (key : String) (value : Value) (others : OrderedMap String Value) :
    L.shown ((key, value) :: others) =
      if L.visible key = true then (key, value) :: L.shown others else L.shown others :=
  List.filter_cons

theorem find?_shown (h : L.visible name = true) (bindings : OrderedMap String Value) :
    (L.shown bindings).find? name = bindings.find? name := by
  induction bindings with
  | nil => rfl
  | cons entry others ih =>
    obtain ⟨key, value⟩ := entry
    rw [shown_cons, OrderedMap.find?]
    by_cases hkey : L.visible key = true
    · rw [if_pos hkey, OrderedMap.find?, ih]
    · have hne : key ≠ name := fun he ↦ hkey (he ▸ h)
      rw [if_neg hkey, if_neg hne, ih]

theorem shown_insert (h : L.visible name = true) (bindings : OrderedMap String Value)
    (value : Value) :
    L.shown (bindings.insert name value) = (L.shown bindings).insert name value := by
  induction bindings with
  | nil => rw [OrderedMap.insert, shown_cons, if_pos h]; rfl
  | cons entry others ih =>
    obtain ⟨key, old⟩ := entry
    rw [OrderedMap.insert, shown_cons]
    by_cases hkey : key = name
    · rw [if_pos hkey, if_pos (hkey ▸ h), shown_cons, if_pos h, OrderedMap.insert, if_pos hkey]
    · rw [if_neg hkey, shown_cons, ih]
      split
      · rw [OrderedMap.insert, if_neg hkey]
      · rfl

end Likeness

/-- The frames bind the same visible names in the same order, to values that are alike, and the
frames around them correspond to one another. -/
structure Frame.Like (L : Likeness) (frame frame' : Frame) : Prop where
  outer : List.Forall₂ L.addresses frame.outer frame'.outer
  bindings : OrderedMap.Like (Value.Like L) (L.shown frame.bindings) (L.shown frame'.bindings)

/-- The frames at corresponding addresses are alike, and those to come will correspond. -/
structure Store.Like (L : Likeness) (store store' : Store) : Prop where
  next (k : Nat) : L.addresses (store.nextAddress + k) (store'.nextAddress + k)
  frames {a a' : Address} : L.addresses a a' →
    Option.Rel (Frame.Like L) (store.frame? a) (store'.frame? a')

/-- The machines differ in their logs, and else in what two runs may differ. -/
structure Machine.Like (L : Likeness) (machine machine' : Machine) : Prop where
  store : machine.store.Like L machine'.store
  created (k : Nat) : L.ids (machine.created + k) (machine'.created + k)
  output : L.texts machine.output machine'.output

namespace Store.Like

variable {L : Likeness} {store store' : Store} {env env' : Address} {name : String}
  {value value' : Value}

theorem chain (h : store.Like L store') (henv : L.addresses env env') :
    List.Forall₂ L.addresses (store.chain env) (store'.chain env') := by
  have houter : ∀ {frame frame' : Option Frame}, Option.Rel (Frame.Like L) frame frame' →
      List.Forall₂ L.addresses ((frame.map Frame.outer).getD [])
        ((frame'.map Frame.outer).getD []) := by
    intro frame frame' h
    cases h with
    | none => exact .nil
    | some h => exact h.outer
  exact .cons henv (houter (h.frames henv))

theorem local? (h : store.Like L store') (hname : L.visible name = true)
    (henv : L.addresses env env') :
    Option.Rel (Value.Like L) (store.local? name env) (store'.local? name env') := by
  have hfind : ∀ {frame frame' : Option Frame}, Option.Rel (Frame.Like L) frame frame' →
      Option.Rel (Value.Like L) (frame.bind fun frame ↦ frame.bindings.find? name)
        (frame'.bind fun frame ↦ frame.bindings.find? name) := by
    intro frame frame' h
    cases h with
    | none => exact .none
    | some h =>
      have hshown := h.bindings.find? name
      rwa [L.find?_shown hname, L.find?_shown hname] at hshown
  exact hfind (h.frames henv)

theorem get? (h : store.Like L store') (hname : L.visible name = true)
    (henv : L.addresses env env') :
    Option.Rel (Value.Like L) (store.get? env name) (store'.get? env' name) := by
  have hfind : ∀ {as as' : List Address}, List.Forall₂ L.addresses as as' →
      Option.Rel (Value.Like L) (as.findSome? (store.local? name))
        (as'.findSome? (store'.local? name)) := by
    intro as as' has
    induction has with
    | nil => exact .none
    | cons ha _ ih =>
      have hlocal := h.local? hname ha
      rw [List.findSome?_cons, List.findSome?_cons]
      generalize store.local? name _ = found, store'.local? name _ = found' at hlocal
      cases hlocal with
      | none => exact ih
      | some hvalue => exact .some hvalue
  exact hfind (h.chain henv)

theorem bind (h : store.Like L store') (hname : L.visible name = true)
    (henv : L.addresses env env') (hvalue : value.Like L value') :
    (store.bind env name value).Like L (store'.bind env' name value') where
  next k := by simpa only [nextAddress_bind] using h.next k
  frames := by
    intro a a' ha
    have hframe := h.frames ha
    have hsame := L.addresses_iff henv ha
    rw [frame?_bind, frame?_bind]
    generalize store.frame? a = frame, store'.frame? a' = frame' at hframe
    cases hframe with
    | none => exact .none
    | some hframe =>
      refine .some ?_
      dsimp only
      by_cases he : env = a
      · rw [if_pos he, if_pos (hsame.mp he)]
        refine ⟨hframe.outer, ?_⟩
        rw [L.shown_insert hname, L.shown_insert hname]
        exact hframe.bindings.insert name hvalue
      · rw [if_neg he, if_neg fun he' ↦ he (hsame.mpr he')]
        exact hframe

theorem addFrame (h : store.Like L store') {outer outer' : List Address}
    (houter : List.Forall₂ L.addresses outer outer') :
    (store.addFrame outer).Like L (store'.addFrame outer') where
  next k := by
    have hnext := h.next (k + 1)
    rw [nextAddress_addFrame, nextAddress_addFrame]
    rwa [Nat.add_right_comm, Nat.add_right_comm store'.nextAddress]
  frames := by
    intro a a' ha
    have hsame : a = store.nextAddress ↔ a' = store'.nextAddress := L.addresses_iff ha (h.next 0)
    rw [frame?_addFrame, frame?_addFrame]
    by_cases he : a = store.nextAddress
    · rw [if_pos he, if_pos (hsame.mp he)]
      exact .some ⟨houter, .nil⟩
    · rw [if_neg he, if_neg fun he' ↦ he (hsame.mpr he')]
      exact h.frames ha

end Store.Like

section Same

variable {L : Likeness}

theorem Likeness.Reflexive.addresses_eq (hL : L.Reflexive) {a a' : Address}
    (h : L.addresses a a') : a = a' := (L.addresses_iff (hL.addresses a) h).mp rfl

theorem Likeness.shown_eq_self (h : ∀ name, L.visible name = true)
    (bindings : OrderedMap String Value) : L.shown bindings = bindings :=
  List.filter_eq_self.mpr fun entry _ ↦ h entry.1

theorem Frame.Like.refl (hL : L.Reflexive) (frame : Frame) : frame.Like L frame where
  outer := List.forall₂_same.mpr fun a _ ↦ hL.addresses a
  bindings := List.forall₂_same.mpr fun entry _ ↦ .intro rfl (.refl hL entry.2)

theorem Frame.Like.eq (hL : L.Exact) {frame frame' : Frame} (h : frame.Like L frame') :
    frame = frame' := by
  have houter : List.Forall₂ (· = ·) frame.outer frame'.outer := h.outer.imp fun _ _ ↦ hL.addresses
  have hbindings : List.Forall₂ (· = ·) frame.bindings frame'.bindings := by
    have hshown := h.bindings
    rw [L.shown_eq_self hL.visible, L.shown_eq_self hL.visible] at hshown
    refine hshown.imp fun entry entry' hentry ↦ ?_
    obtain ⟨hname, hvalue⟩ := hentry
    exact Prod.ext hname (hvalue.eq hL.toLiteral)
  rw [List.forall₂_eq_eq_eq] at houter hbindings
  cases frame
  cases frame'
  rw [Frame.mk.injEq]
  exact ⟨hbindings, houter⟩

theorem Machine.Like.refl (hL : L.Reflexive) (machine : Machine) : machine.Like L machine where
  store := by
    refine ⟨fun k ↦ hL.addresses _, fun {a a'} ha ↦ ?_⟩
    rw [hL.addresses_eq ha]
    cases machine.store.frame? a' with
    | none => exact .none
    | some frame => exact .some (.refl hL frame)
  created k := hL.ids _
  output := hL.texts _

/-- Machines between which runs may not differ are the same but for their logs. -/
theorem Machine.Like.eq (hL : L.Exact) (hL' : L.Reflexive) {machine machine' : Machine}
    (h : machine.Like L machine') : machine' = { machine with log := machine'.log } := by
  have hframe : ∀ a, machine'.store.frame? a = machine.store.frame? a := by
    intro a
    have hrel := h.store.frames (hL'.addresses a)
    generalize machine.store.frame? a = frame, machine'.store.frame? a = frame' at hrel
    cases hrel with
    | none => rfl
    | some hframe => rw [hframe.eq hL]
  have hstore : machine'.store = machine.store :=
    congrArg Store.mk (Array.ext_getElem? hframe)
  have hcreated : machine.created = machine'.created := hL.ids (h.created 0)
  have houtput : machine.output = machine'.output := hL.texts h.output
  rw [← hstore, hcreated, houtput]

end Same

end MonkeyLang
