import MonkeyLang.Proofs.Store.Like
import MonkeyLang.Proofs.Store.Standing

/-!
Closed machines, which hold no number of creation and no environment that has not been given out
yet. What a run adds to such a machine can be moved behind what another run has added, and nothing
that is old moves with it.
-/

namespace MonkeyLang

/-- The numbers of creation and the environments in the value have been given out. -/
def Value.Known (extent : Extent) (value : Value) : Prop :=
  ∀ inner ∈ value.nested, (∀ id ∈ inner.id?, id < extent.1) ∧ ∀ env ∈ inner.scope?, env < extent.2

/-- What stands in the frames is known, and the frames around them are there. -/
structure Machine.Closed (machine : Machine) : Prop where
  outer : ∀ frame ∈ machine.store.frames.toList, ∀ env ∈ frame.outer, env < machine.extent.2
  values : ∀ value ∈ machine.store.values, value.Known machine.extent

instance (extent : Extent) (value : Value) : Decidable (value.Known extent) :=
  inferInstanceAs (Decidable (∀ _ ∈ _, _))

instance (machine : Machine) : Decidable machine.Closed :=
  decidable_of_iff ((∀ frame ∈ machine.store.frames.toList, ∀ env ∈ frame.outer,
      env < machine.extent.2) ∧ ∀ value ∈ machine.store.values, value.Known machine.extent)
    ⟨fun h ↦ ⟨h.1, h.2⟩, fun h ↦ ⟨h.outer, h.values⟩⟩

namespace Value

variable {extent : Extent} {value : Value} {range : Int → Prop}

theorem known_iff_within :
    value.Known extent ↔ value.Within (· < extent.2) fun inner ↦ ∀ id ∈ inner.id?, id < extent.1 :=
  within_iff_nested.symm

theorem Stands.known (h : value.Stands range extent) : value.Known extent :=
  known_iff_within.mpr (Within.mono h (fun _ ↦ id) fun _ ↦ And.left)

end Value

theorem Store.Stands.closed {range : Int → Prop} {machine : Machine}
    (h : machine.store.Stands range machine.created) : machine.Closed where
  outer frame hframe := by
    obtain ⟨address, hf⟩ := List.mem_iff_getElem?.mp hframe
    exact h.outer address frame (by rwa [Store.frame?, ← Array.getElem?_toList])
  values _ hm := (h.values hm).known

/-- Old things stay where they are and new ones, which are counted from `start`, are moved so that
they are counted from `stop`. -/
def shift (start stop i : Nat) : Nat := if i < start then i else i + (stop - start)

theorem shift_of_lt {start stop i : Nat} (h : i < start) : shift start stop i = i := if_pos h

theorem shift_add {start stop : Nat} (h : start ≤ stop) (k : Nat) :
    shift start stop (start + k) = stop + k := by
  rw [shift, if_neg (by omega)]
  omega

theorem shift_inj {start stop i j : Nat} : shift start stop i = shift start stop j ↔ i = j := by
  unfold shift
  split <;> split <;> omega

/-- What a run has added to one machine corresponds to what a run has added to a later one, in the
order of its making, and old things correspond to themselves. The runs have written the same. -/
def Likeness.again (before after : Machine) : Likeness where
  ids i i' := i' = shift before.created after.created i
  addresses a a' := a' = shift before.store.nextAddress after.store.nextAddress a
  texts text text' := ∃ written, text = before.output ++ written ∧ text' = after.output ++ written
  tokens := Eq
  visible _ := true
  ids_iff := by
    rintro i _ j _ rfl rfl
    exact shift_inj.symm
  addresses_iff := by
    rintro a _ b _ rfl rfl
    exact shift_inj.symm
  texts_append text := by
    rintro ⟨written, rfl, rfl⟩
    exact ⟨written ++ text, String.append_assoc .., String.append_assoc ..⟩

namespace Value.Known

variable {before after : Machine} {value value' : Value}

/-- What is known before is like itself, and like nothing else. -/
theorem like_again (h : value.Known before.extent) : value.Like (.again before after) value :=
  .of_within (fun _ ↦ rfl) <| (known_iff_within.mp h).mono (fun _ hlt ↦ (shift_of_lt hlt).symm)
    fun _ hlt ↦ ⟨fun id hid ↦ (shift_of_lt (hlt id hid)).symm, fun _ _ ↦ rfl⟩

theorem eq_of_like (h : value.Known before.extent)
    (hlike : value.Like (.again before after) value') : value = value' := by
  refine hlike.eq_of_within id <| (known_iff_within.mp h).mono (fun env hlt env' henv ↦ ?_)
    fun inner hlt id hid id' hcorrespond ↦ ?_
  · exact (henv.trans (shift_of_lt hlt)).symm
  · exact (hcorrespond.trans (shift_of_lt (hlt id hid))).symm

end Value.Known

/-- A closed machine is like one that it has grown into. -/
theorem Machine.Closed.like_again {before after : Machine} (h : before.Closed)
    (hframes : before.store.Extends after.store) (hcreated : before.created ≤ after.created) :
    before.Like (.again before after) after where
  created k := (shift_add hcreated k).symm
  output := ⟨"", String.append_empty.symm, String.append_empty.symm⟩
  store := by
    refine ⟨fun k ↦ (shift_add hframes.nextAddress_le k).symm, ?_⟩
    rintro a _ rfl
    by_cases hold : a < before.store.nextAddress
    · obtain ⟨frame, hf⟩ := Option.isSome_iff_exists.mp (Store.isSome_frame?.mpr hold)
      rw [shift_of_lt hold, hf, hframes a frame hf]
      have hframe : frame ∈ before.store.frames.toList :=
        List.mem_of_getElem? (by rwa [Array.getElem?_toList])
      refine .some ⟨List.forall₂_same.mpr fun env henv ↦ ?_,
        List.forall₂_same.mpr fun entry hentry ↦ .intro rfl ?_⟩
      · exact (shift_of_lt (h.outer frame hframe env henv)).symm
      · have hbound : entry ∈ frame.bindings := (List.mem_filter.mp hentry).1
        exact (h.values entry.2
          (List.mem_flatMap.mpr ⟨frame, hframe, List.mem_map_of_mem hbound⟩)).like_again
    · obtain ⟨k, rfl⟩ := Nat.exists_eq_add_of_le (Nat.le_of_not_lt hold)
      rw [shift_add hframes.nextAddress_le, Store.frame?_eq_none (Nat.le_add_right ..),
        Store.frame?_eq_none (Nat.le_add_right ..)]
      exact .none

end MonkeyLang
