import MonkeyLang.Proofs.Store.Like
import MonkeyLang.Proofs.Value.Nested
import Mathlib.Data.Set.Defs
import Mathlib.Order.Basic

/-!
Machines that differ in what their frames bind to hidden names, and what can be seen of a store
without asking for one of these.
-/

namespace MonkeyLang

mutual

/-- The frame can be seen from the environment by a path that asks for no hidden name. -/
inductive Store.SeesFrame (store : Store) (hidden : Set String) (env : Address) : Address → Prop
  | self : SeesFrame store hidden env env
  | outer {address outer : Address} {frame : Frame} :
      SeesFrame store hidden env address → store.frame? address = some frame →
      outer ∈ frame.outer → SeesFrame store hidden env outer
  | scope {value : Value} {scope : Address} :
      SeesValue store hidden env value → scope ∈ value.scope? → SeesFrame store hidden env scope

/-- The value can be seen from the environment by a path that asks for no hidden name. -/
inductive Store.SeesValue (store : Store) (hidden : Set String) (env : Address) : Value → Prop
  | bound {address : Address} {frame : Frame} {entry : String × Value} :
      SeesFrame store hidden env address → store.frame? address = some frame →
      entry ∈ frame.bindings → entry.1 ∉ hidden → SeesValue store hidden env entry.2
  | part {value inner : Value} :
      SeesValue store hidden env value → inner ∈ value.parts → SeesValue store hidden env inner

end

open Classical in
/-- The frame without what it binds to hidden names. -/
noncomputable def Frame.without (hidden : Set String) (frame : Frame) : Frame :=
  { frame with bindings := frame.bindings.filter fun entry ↦ entry.1 ∉ hidden }

theorem Frame.mem_without {hidden : Set String} {frame : Frame} {entry : String × Value} :
    entry ∈ (frame.without hidden).bindings ↔ entry ∈ frame.bindings ∧ entry.1 ∉ hidden := by
  simp only [without, List.mem_filter, decide_eq_true_eq]

/-- The machines differ in their logs and in what their frames bind to hidden names. -/
structure Machine.SameBut (hidden : Set String) (machine machine' : Machine) : Prop where
  frames (address : Address) : (machine.store.frame? address).map (Frame.without hidden) =
    (machine'.store.frame? address).map (Frame.without hidden)
  created : machine.created = machine'.created
  output : machine.output = machine'.output

open Classical in
/-- Runs may differ in what is bound to hidden names, and are compared where they see one another:
in the frames that can be seen from the environment and in those to come. -/
noncomputable def Likeness.without (hidden : Set String) (store : Store) (env : Address) :
    Likeness :=
  { upTo Eq with
    addresses := fun a a' ↦ a = a' ∧ (store.SeesFrame hidden env a ∨ store.nextAddress ≤ a)
    visible := fun name ↦ decide (name ∉ hidden)
    addresses_iff := fun h h' ↦ Eq.congr h.1 h'.1 }

namespace Likeness

variable {hidden : Set String} {store : Store} {env : Address}

theorem literal_without : (without hidden store env).Literal := ⟨id, And.left, id⟩

theorem visible_without {name : String} :
    (without hidden store env).visible name = true ↔ name ∉ hidden := by
  classical exact decide_eq_true_iff

theorem shown_without (frame : Frame) :
    (without hidden store env).shown frame.bindings = (frame.without hidden).bindings := rfl

end Likeness

namespace Store

variable {hidden : Set String} {store : Store} {env : Address}

/-- What can be seen stands in something that is bound to a name which is not hidden. -/
theorem SeesValue.exists_bound {value : Value} : store.SeesValue hidden env value →
    ∃ address frame, store.frame? address = some frame ∧
      ∃ entry ∈ frame.bindings, entry.1 ∉ hidden ∧ value ∈ entry.2.nested
  | .bound _ hf hentry hname => ⟨_, _, hf, _, hentry, hname, Value.self_mem_nested _⟩
  | .part h hm => by
    obtain ⟨address, frame, hf, entry, hentry, hname, hnested⟩ := exists_bound h
    exact ⟨address, frame, hf, entry, hentry, hname, Value.part_mem_nested hnested hm⟩

theorem SeesValue.like (hnames : ∀ value, store.SeesValue hidden env value →
      ∀ name ∈ value.ownNames, name ∉ hidden) {value : Value}
    (h : store.SeesValue hidden env value) : value.Like (.without hidden store env) value := by
  refine .of_within (fun _ ↦ rfl) ?_
  induction value using Value.induction_parts with
  | h value ih =>
    refine .intro ⟨fun _ _ ↦ rfl, fun name hname ↦ ?_⟩ (fun scope hscope ↦ ?_) fun part hpart ↦ ?_
    · exact Likeness.visible_without.mpr (hnames value h name hname)
    · exact ⟨rfl, .inl (.scope h hscope)⟩
    · exact ih part hpart (h.part hpart)

end Store

theorem Frame.Like.without_eq {hidden : Set String} {store : Store} {env : Address}
    {frame frame' : Frame} (h : frame.Like (.without hidden store env) frame') :
    frame.without hidden = frame'.without hidden := by
  have houter : List.Forall₂ (· = ·) frame.outer frame'.outer := h.outer.imp fun _ _ ↦ And.left
  have hbindings : List.Forall₂ (· = ·) (frame.without hidden).bindings
      (frame'.without hidden).bindings := by
    refine h.bindings.imp fun entry entry' hentry ↦ ?_
    obtain ⟨hname, hvalue⟩ := hentry
    exact Prod.ext hname (hvalue.eq Likeness.literal_without)
  rw [List.forall₂_eq_eq_eq] at houter hbindings
  rw [Frame.without, Frame.without, Frame.mk.injEq]
  exact ⟨hbindings, houter⟩

namespace Machine.SameBut

variable {hidden : Set String} {machine machine' : Machine} {env : Address}

theorem nextAddress_eq (h : machine.SameBut hidden machine') :
    machine.store.nextAddress = machine'.store.nextAddress :=
  eq_of_forall_lt_iff fun address ↦ by
    rw [← Store.isSome_frame?, ← Store.isSome_frame?, ← Option.isSome_map, h.frames address,
      Option.isSome_map]

/-- The machines are alike where runs from the environment see them, if nothing that is seen there
mentions a hidden name. -/
theorem like (h : machine.SameBut hidden machine')
    (hnames : ∀ value, machine.store.SeesValue hidden env value →
      ∀ name ∈ value.ownNames, name ∉ hidden) :
    machine.Like (.without hidden machine.store env) machine' where
  created k := congrArg (· + k) h.created
  output := h.output
  store := by
    refine ⟨fun k ↦ ⟨congrArg (· + k) h.nextAddress_eq, .inr (Nat.le_add_right _ _)⟩, ?_⟩
    rintro a _ ⟨rfl, hsees⟩
    have hframe := h.frames a
    cases hf : machine.store.frame? a with
    | none =>
      rw [hf] at hframe
      rw [Option.map_eq_none_iff.mp hframe.symm]
      exact .none
    | some frame =>
      rw [hf] at hframe
      obtain ⟨frame', hf', hwithout⟩ := Option.map_eq_some_iff.mp hframe.symm
      rw [hf']
      refine .some ?_
      have hseen : machine.store.SeesFrame hidden env a := by
        refine hsees.resolve_right fun hnext ↦ ?_
        rw [Store.frame?_eq_none hnext] at hf
        cases hf
      have houter : (frame.without hidden).outer = (frame'.without hidden).outer := by rw [hwithout]
      change frame.outer = frame'.outer at houter
      refine ⟨?_, ?_⟩
      · rw [← houter]
        exact List.forall₂_same.mpr fun outer ho ↦ ⟨rfl, .inl (.outer hseen hf ho)⟩
      · rw [Likeness.shown_without, Likeness.shown_without, hwithout]
        refine List.forall₂_same.mpr fun entry hentry ↦ .intro rfl ?_
        obtain ⟨hentry, hname⟩ := Frame.mem_without.mp hentry
        exact Store.SeesValue.like hnames (.bound hseen hf hentry hname)

/-- Machines that come of those are the same again but for hidden names, if they are alike and no
frame has changed that cannot be seen. -/
theorem of_like {after after' : Machine} (h : machine.SameBut hidden machine')
    (hlike : after.Like (.without hidden machine.store env) after')
    (hold : ∀ address ≠ env, address < machine.store.nextAddress →
      after.store.frame? address = machine.store.frame? address ∧
        after'.store.frame? address = machine'.store.frame? address) :
    after.SameBut hidden after' where
  created := hlike.created 0
  output := hlike.output
  frames address := by
    by_cases hsees : machine.store.SeesFrame hidden env address ∨
        machine.store.nextAddress ≤ address
    · have hframes := hlike.store.frames (a := address) ⟨rfl, hsees⟩
      generalize after.store.frame? address = frame, after'.store.frame? address = frame'
        at hframes
      cases hframes with
      | none => rfl
      | some hframe => exact congrArg some (hframe.without_eq)
    -- a frame that cannot be seen is none of those that runs from the environment change
    · have hne : address ≠ env := by
        rintro rfl
        exact hsees (.inl .self)
      obtain ⟨ha, ha'⟩ := hold address hne (Nat.lt_of_not_le fun hle ↦ hsees (.inr hle))
      rw [ha, ha', h.frames]

end Machine.SameBut

end MonkeyLang
